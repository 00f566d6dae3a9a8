import DaemonProxy.Proofs.FdRefusals
import DaemonProxy.Proofs.Numbers

/-! # Flags of handles, printed and read

`fd.state` prints the flags of a handle as a list of options with commas. Each option is one that the command reads, so that reading
the list gives flags with the same meaning.
-/

namespace DaemonProxy.Proofs

open Lib Model

/-! ## Numbers -/

theorem isDigit_bounds {c : Char} (digit : c.isDigit = true) : 48 ≤ c.toNat ∧ c.toNat ≤ 57 := by
  rw [Char.isDigit, Bool.and_eq_true, decide_eq_true_iff, decide_eq_true_iff] at digit
  exact ⟨UInt32.le_iff_toNat_le.mp digit.1, UInt32.le_iff_toNat_le.mp digit.2⟩

variable {n : ℕ}

theorem natText_digits {c : UInt8} (member : c ∈ natText n) : isDigit c := by
  obtain ⟨char, inside, rfl⟩ := List.mem_map.mp member
  have bounds := isDigit_bounds (Nat.isDigit_of_mem_toDigits (by decide) (by decide) inside)
  simp only [isDigit, UInt8.toNat_ofNat', Bool.decide_and, Bool.and_eq_true, decide_eq_true_eq]
  omega

/-- The digits that are printed denote the number. -/
theorem decimal_natText (n : ℕ) : decimal (natText n) = n := by
  have fold (chars : List Char) (digits : ∀ c ∈ chars, c.isDigit = true) (init : ℕ) :
      (chars.map fun c => UInt8.ofNat c.toNat).foldl appendDigit init = (Nat.ofDigitChars 10 chars init : ℤ) := by
    induction chars generalizing init with
    | nil => rfl
    | cons c rest ih =>
      have bounds := isDigit_bounds (digits c List.mem_cons_self)
      have step : appendDigit init (UInt8.ofNat c.toNat) = ((10 * init + (c.toNat - 48) : ℕ) : ℤ) := by
        simp only [appendDigit, UInt8.toNat_ofNat']
        omega
      rw [List.map_cons, List.foldl_cons, step, ih fun other member => digits other (List.mem_cons_of_mem _ member)]
      rfl
  have whole := fold (Nat.toDigits 10 n) (fun _ inside => Nat.isDigit_of_mem_toDigits (by decide) (by decide) inside) 0
  rwa [Nat.ofDigitChars_ten_toDigits] at whole

theorem strsegAtoi_natText (small : n < 2 ^ 63) : strsegAtoi (natText n) = some ((n : ℤ), []) := by
  have value := decimal_natText n
  cases text : natText n with
  | nil => exact absurd (List.map_eq_nil_iff.mp text) Nat.toDigits_ne_nil
  | cons c rest =>
    have digits : ∀ d ∈ c :: rest, isDigit d := fun d member => natText_digits (text ▸ member)
    rw [text] at value
    apply (strsegAtoi_digits (digits c List.mem_cons_self) rest n).mpr
    refine ⟨digits, ?_⟩
    rw [value, wrap64_eq]
    constructor <;> omega

/-! ## Lists of options -/

/-- The options, with commas between them. -/
def optionText (tokens : List Bytes) : Bytes := [44].intercalate tokens

def listed (flag : Bool) (text : String) : List Bytes := if flag then [bytesOf text] else []

variable {tokens : List Bytes}

theorem optionText_concat (nonempty : tokens ≠ []) (token : Bytes) :
    optionText (tokens ++ [token]) = optionText tokens ++ 44 :: token := by
  induction tokens with
  | nil => exact absurd rfl nonempty
  | cons first rest ih =>
    cases rest with
    | nil => simp [optionText, List.intercalate]
    | cons second more =>
      have later := ih (List.cons_ne_nil _ _)
      simp only [optionText, List.intercalate, List.cons_append, List.intersperse_cons_cons, List.flatten_cons] at later ⊢
      rw [later]
      simp

/-- An option is printed with the comma in front of it. -/
theorem optionText_listed (nonempty : tokens ≠ []) (flag : Bool) (text printed : String)
    (comma : bytesOf printed = 44 :: bytesOf text) :
    optionText (tokens ++ listed flag text) = optionText tokens ++ flagText flag printed := by
  cases flag with
  | false => simp [listed, flagText]
  | true =>
    simp only [listed, flagText, if_true]
    rw [optionText_concat nonempty, comma]

theorem commaList_optionText (nonempty : tokens ≠ []) (free : ∀ token ∈ tokens, 44 ∉ token) :
    commaList (optionText tokens) = tokens := by
  rw [commaList, strsegTokens_eq (Nat.lt_succ_self _), optionText]
  exact List.splitOn_intercalate 44 free nonempty

variable {flags : FdFlags}

theorem parseFlags_append {known : Bytes → FdFlags → Except Bytes FdFlags} {first later : List Bytes} {flags₁ : FdFlags}
    (parsed : parseFlags known first flags = .ok flags₁) :
    parseFlags known (first ++ later) flags = parseFlags known later flags₁ := by
  induction first generalizing flags with
  | nil =>
    cases parsed
    rfl
  | cons opt rest ih =>
    cases opt with
    | nil => exact ih parsed
    | cons c more =>
      rw [parseFlags] at parsed
      · rw [List.cons_append, parseFlags]
        · cases result : known (c :: more) flags with
          | error text => simp [result] at parsed
          | ok flags' =>
            simp only [result] at parsed
            exact ih parsed
        · rintro ⟨⟩
      · rintro ⟨⟩

/-! ## The flags of a file -/

def openTokens (flags : FdFlags) : List Bytes :=
  (if flags.write then listed flags.read "read" ++ [bytesOf "write"] else [bytesOf "read"]) ++ listed flags.append "append" ++
    listed flags.create "create" ++ listed flags.trunc "trunc" ++ listed flags.nonblock "nonblock" ++ listed flags.mkdir "mkdir"

/-- A handle that `fd.open` makes is a file. -/
structure IsFile (flags : FdFlags) : Prop where
  notPipe : flags.pipe = false
  notSocket : flags.socket = false
  notSpecial : flags.special = false

theorem openFlag_isFile (opt : Bytes) (flags : FdFlags) (file : IsFile flags) : Allows IsFile (openFlag opt flags) := by
  unfold openFlag
  repeat' apply Allows.ite
  all_goals first | exact .ok ⟨file.1, file.2, file.3⟩ | exact .error _

theorem fdText_file (file : IsFile flags) (target : Option Bytes) :
    fdText flags target = bytesOf "file" ++ tab :: (optionText (openTokens flags) ++ tab :: cString (target.getD [])) := by
  have access : optionText (if flags.write then listed flags.read "read" ++ [bytesOf "write"] else [bytesOf "read"]) =
      bytesOf (if flags.write then (if flags.read then "read,write" else "write") else "read") := by
    cases flags.write <;> cases flags.read <;> decide
  have some : (if flags.write then listed flags.read "read" ++ [bytesOf "write"] else [bytesOf "read"]) ≠ [] := by
    split
    · exact List.append_ne_nil_of_right_ne_nil _ (List.cons_ne_nil _ _)
    · exact List.cons_ne_nil _ _
  have more {tokens : List Bytes} (nonempty : tokens ≠ []) (later : List Bytes) : tokens ++ later ≠ [] :=
    List.append_ne_nil_of_left_ne_nil nonempty _
  rw [openTokens, optionText_listed (more (more (more (more some _) _) _) _) _ "mkdir" ",mkdir" (by decide),
    optionText_listed (more (more (more some _) _) _) _ "nonblock" ",nonblock" (by decide),
    optionText_listed (more (more some _) _) _ "trunc" ",trunc" (by decide),
    optionText_listed (more some _) _ "create" ",create" (by decide),
    optionText_listed some _ "append" ",append" (by decide), access, fdText, if_neg (by simp [file.notPipe]),
    if_neg (by simp [file.notSocket]), if_neg (by simp [file.notSpecial])]
  simp [bytesOf, tab]

/-- The flags that are read from the text for a file. -/
def rereadFile (flags : FdFlags) : FdFlags :=
  { read := flags.read || !flags.write, write := flags.write, create := flags.create, append := flags.append,
    mkdir := flags.mkdir, trunc := flags.trunc, nonblock := flags.nonblock }

theorem eq_ok_of_toOption {result : Except Bytes FdFlags} (some : result.toOption = some flags) :
    result = .ok flags := by
  cases result with
  | error text => cases some
  | ok flags' =>
    cases some
    rfl

theorem openTokens_parse (flags : FdFlags) : parseFlags openFlag (openTokens flags) {} = .ok (rereadFile flags) := by
  have all : ∀ read write create append mkdir trunc nonblock : Bool,
      (parseFlags openFlag (openTokens { read, write, create, append, mkdir, trunc, nonblock }) {}).toOption =
        some (rereadFile { read, write, create, append, mkdir, trunc, nonblock }) := by decide +kernel
  exact eq_ok_of_toOption (all flags.read flags.write flags.create flags.append flags.mkdir flags.trunc flags.nonblock)

theorem openTokens_plain {token : Bytes} (member : token ∈ openTokens flags) : 44 ∉ token ∧ tab ∉ token := by
  have all : ∀ read write create append mkdir trunc nonblock : Bool,
      ∀ token ∈ openTokens { read, write, create, append, mkdir, trunc, nonblock }, 44 ∉ token ∧ tab ∉ token := by decide +kernel
  exact all flags.read flags.write flags.create flags.append flags.mkdir flags.trunc flags.nonblock token member

/-! ## The flags of a socket -/

def socketTokens (flags : FdFlags) : List Bytes :=
  [bytesOf (if flags.sockInet then "inet" else if flags.sockInet6 then "inet6" else "unix"),
    bytesOf (if flags.sockDgram then "dgram" else if flags.sockSeq then "seqpacket" else "stream")] ++
    listed flags.bind "bind" ++ (if flags.listen ≠ 0 then [bytesOf "listen=" ++ natText flags.listen] else []) ++
    listed flags.mkdir "mkdir" ++ listed flags.nonblock "nonblock"

/-- A handle that `fd.socket` makes; with a queue it is bound. -/
structure IsSocket (flags : FdFlags) : Prop where
  notPipe : flags.pipe = false
  socket : flags.socket = true
  notSpecial : flags.special = false
  bound : flags.listen ≠ 0 → flags.bind = true
  queue : flags.listen < 65536

theorem listenValue_lt {optval : StrSeg} {listen : ℕ} (value : listenValue optval = .ok listen) : listen < 65536 := by
  unfold listenValue at value
  split at value
  · cases value
    decide
  · cases value
    decide
  · split at value
    · split at value
      · cases value
      · next range =>
        cases value
        omega
    · cases value

theorem socketFlag_isSocket (option : Bytes) (flags : FdFlags) (socket : IsSocket flags) :
    Allows IsSocket (socketFlag option flags) := by
  unfold socketFlag
  cases splitAtSep 61 option with
  | mk opt optval =>
    dsimp only
    apply Allows.ite
    · exact .ok ⟨socket.1, socket.2, socket.3, fun _ => rfl, socket.5⟩
    · apply Allows.ite
      · cases value : listenValue optval with
        | error text => exact .error text
        | ok listen => exact .ok ⟨socket.1, socket.2, socket.3, fun _ => rfl, listenValue_lt value⟩
      · repeat' apply Allows.ite
        all_goals first | exact .ok ⟨socket.1, socket.2, socket.3, socket.4, socket.5⟩ | exact .error _ |
          exact .ok ⟨socket.1, rfl, socket.3, socket.4, socket.5⟩

theorem fdText_socket (socket : IsSocket flags) (target : Option Bytes) :
    fdText flags target = bytesOf "socket" ++ tab :: (optionText (socketTokens flags) ++ tab :: cString (target.getD [])) := by
  have kind : optionText [bytesOf (if flags.sockInet then "inet" else if flags.sockInet6 then "inet6" else "unix"),
      bytesOf (if flags.sockDgram then "dgram" else if flags.sockSeq then "seqpacket" else "stream")] =
      bytesOf (if flags.sockInet then "inet" else if flags.sockInet6 then "inet6" else "unix") ++
        bytesOf (if flags.sockDgram then ",dgram" else if flags.sockSeq then ",seqpacket" else ",stream") := by
    cases flags.sockInet <;> cases flags.sockInet6 <;> cases flags.sockDgram <;> cases flags.sockSeq <;> decide
  have queue {tokens : List Bytes} (nonempty : tokens ≠ []) :
      optionText (tokens ++ if flags.listen ≠ 0 then [bytesOf "listen=" ++ natText flags.listen] else []) =
        optionText tokens ++ if flags.listen ≠ 0 then bytesOf ",listen=" ++ natText flags.listen else [] := by
    split
    · exact optionText_concat nonempty _
    · rw [List.append_nil, List.append_nil]
  have more {tokens : List Bytes} (nonempty : tokens ≠ []) (later : List Bytes) : tokens ++ later ≠ [] :=
    List.append_ne_nil_of_left_ne_nil nonempty _
  rw [socketTokens, optionText_listed (more (more (more (List.cons_ne_nil _ _) _) _) _) _ "nonblock" ",nonblock" (by decide),
    optionText_listed (more (more (List.cons_ne_nil _ _) _) _) _ "mkdir" ",mkdir" (by decide),
    queue (more (List.cons_ne_nil _ _) _), optionText_listed (List.cons_ne_nil _ _) _ "bind" ",bind" (by decide), kind, fdText,
    if_neg (by simp [socket.notPipe]), if_pos socket.socket, if_neg (by simp [socket.notSpecial])]
  simp [bytesOf, tab]

/-- The flags that are read from the text for a socket. -/
def rereadSocket (flags : FdFlags) : FdFlags :=
  { socket := true, sockInet := flags.sockInet, sockInet6 := !flags.sockInet && flags.sockInet6, sockDgram := flags.sockDgram,
    sockSeq := !flags.sockDgram && flags.sockSeq, bind := flags.bind, listen := flags.listen, mkdir := flags.mkdir,
    nonblock := flags.nonblock }

theorem socketFlag_listen (positive : n ≠ 0) (small : n < 65536) (flags : FdFlags) :
    socketFlag (bytesOf "listen=" ++ natText n) flags = .ok { flags with bind := true, listen := n } := by
  have split : splitAtSep 61 (bytesOf "listen=" ++ natText n) = (bytesOf "listen", some (natText n)) := by
    have free : (61 : UInt8) ∉ bytesOf "listen" := by decide
    have named : bytesOf "listen=" = bytesOf "listen" ++ [61] := by decide
    rw [named, List.append_assoc]
    exact splitAtSep_token free
  have value : listenValue (some (natText n)) = .ok n := by
    have parsed := strsegAtoi_natText (show n < 2 ^ 63 by omega)
    have inside : ¬((n : ℤ) ≥ 65536 ∨ (n : ℤ) ≤ 0) := by omega
    unfold listenValue
    split
    · next empty => cases empty
    · next empty => exact absurd (Option.some.inj empty) fun none => Nat.toDigits_ne_nil (List.map_eq_nil_iff.mp none)
    · next same =>
      obtain rfl := Option.some.inj same
      rw [parsed]
      simp only [if_neg inside, Int.toNat_natCast]
  rw [socketFlag, split]
  simp only [value]
  rw [if_neg (by decide), if_pos trivial]

theorem socketTokens_parse (socket : IsSocket flags) :
    parseFlags socketFlag (socketTokens flags) { socket := true } = .ok (rereadSocket flags) := by
  have kind : ∀ sockInet sockInet6 sockDgram sockSeq bind : Bool,
      (parseFlags socketFlag ([bytesOf (if sockInet then "inet" else if sockInet6 then "inet6" else "unix"),
        bytesOf (if sockDgram then "dgram" else if sockSeq then "seqpacket" else "stream")] ++ listed bind "bind")
        { socket := true }).toOption =
      some { socket := true, sockInet, sockInet6 := !sockInet && sockInet6, sockDgram, sockSeq := !sockDgram && sockSeq, bind } := by
    decide +kernel
  have first := eq_ok_of_toOption (kind flags.sockInet flags.sockInet6 flags.sockDgram flags.sockSeq flags.bind)
  have queue (flags₁ : FdFlags) (bind : flags₁.bind = flags.bind) (listen : flags₁.listen = 0) :
      parseFlags socketFlag (if flags.listen ≠ 0 then [bytesOf "listen=" ++ natText flags.listen] else []) flags₁ =
        .ok { flags₁ with listen := flags.listen } := by
    split
    · next positive =>
      rw [parseFlags]
      · rw [socketFlag_listen positive socket.queue, ← socket.bound positive, ← bind]
        rfl
      · exact fun empty => by cases empty
    · next none =>
      rw [not_not.mp none, ← listen]
      rfl
  have last (mkdir nonblock : Bool) (flags₁ : FdFlags) (unset : flags₁.mkdir = false ∧ flags₁.nonblock = false) :
      parseFlags socketFlag (listed mkdir "mkdir" ++ listed nonblock "nonblock") flags₁ = .ok { flags₁ with mkdir, nonblock } := by
    cases flags₁
    obtain ⟨rfl, rfl⟩ := unset
    cases mkdir <;> cases nonblock <;> rfl
  rw [socketTokens, List.append_assoc, List.append_assoc, parseFlags_append first]
  apply (parseFlags_append (queue _ ?_ ?_)).trans
  · exact last _ _ _ ⟨rfl, rfl⟩
  · rfl
  · rfl

theorem socketTokens_plain {token : Bytes} (member : token ∈ socketTokens flags) : 44 ∉ token ∧ tab ∉ token := by
  have all : ∀ sockInet sockInet6 sockDgram sockSeq bind mkdir nonblock : Bool,
      ∀ token ∈ socketTokens { sockInet, sockInet6, sockDgram, sockSeq, bind, mkdir, nonblock }, 44 ∉ token ∧ tab ∉ token := by
    decide +kernel
  have fixed := all flags.sockInet flags.sockInet6 flags.sockDgram flags.sockSeq flags.bind flags.mkdir flags.nonblock token
  simp only [socketTokens, List.mem_append] at fixed member
  rcases member with (((kind | bind) | queue) | mkdir) | nonblock
  · exact fixed (.inl (.inl (.inl (.inl kind))))
  · exact fixed (.inl (.inl (.inl (.inr bind))))
  · have outside {c : UInt8} (named : c ∉ bytesOf "listen=") (notDigit : isDigit c = false) :
        c ∉ bytesOf "listen=" ++ natText flags.listen := by
      intro inside
      rcases List.mem_append.mp inside with name | digit
      · exact named name
      · exact nomatch notDigit.symm.trans (natText_digits digit)
    split at queue
    · obtain rfl := List.mem_singleton.mp queue
      exact ⟨outside (by decide) (by decide), outside (by decide) (by decide)⟩
    · cases queue
  · exact fixed (.inl (.inr mkdir))
  · exact fixed (.inr nonblock)

/-! ## The message -/

/-- The field FLAGS of `fd.state`, NAME, TYPE, FLAGS and DESCRIPTION. -/
def flagsField (line : Bytes) : Option Bytes := (line.splitOn tab)[3]?

theorem tab_notMem_optionText (nonempty : tokens ≠ []) (plain : ∀ token ∈ tokens, 44 ∉ token ∧ tab ∉ token) :
    tab ∉ optionText tokens := by
  intro inside
  obtain ⟨token, member, here⟩ := exists_mem_splitOn inside (show tab ≠ 44 by decide)
  rw [optionText, List.splitOn_intercalate 44 (fun token member => (plain token member).1) nonempty] at member
  exact (plain token member).2 here

variable {name : Bytes}

/-- The options are read back from a message that has them in its place for them. -/
theorem flagsField_options {kind rest : Bytes} (nameFree : tab ∉ name) (kindFree : tab ∉ kind)
    (nonempty : tokens ≠ []) (plain : ∀ token ∈ tokens, 44 ∉ token ∧ tab ∉ token) :
    flagsField (bytesOf "fd.state\t" ++ name ++ bytesOf "\t" ++ (kind ++ tab :: (optionText tokens ++ tab :: rest))) =
      some (optionText tokens) := by
  have titleFree : tab ∉ bytesOf "fd.state" := by decide
  have spelled : bytesOf "fd.state\t" ++ name ++ bytesOf "\t" ++ (kind ++ tab :: (optionText tokens ++ tab :: rest)) =
      bytesOf "fd.state" ++ tab :: (name ++ tab :: (kind ++ tab :: (optionText tokens ++ tab :: rest))) := by
    simp [bytesOf, tab]
  rw [flagsField, spelled, List.splitOn_append_cons_self_of_not_mem titleFree, List.splitOn_append_cons_self_of_not_mem nameFree,
    List.splitOn_append_cons_self_of_not_mem kindFree,
    List.splitOn_append_cons_self_of_not_mem (tab_notMem_optionText nonempty plain)]
  rfl

/-- A line can be given to `fd.open` or `fd.socket` again, which reads `again` from its flags. -/
def Rereads (known : Bytes → FdFlags → Except Bytes FdFlags) (initial : FdFlags) (line : Bytes) (again : FdFlags) : Prop :=
  ∃ field, flagsField line = some field ∧ tab ∉ field ∧ parseFlags known (commaList field) initial = .ok again

theorem file_rereads (file : IsFile flags) (nameFree : tab ∉ name) (target : Option Bytes)
    (sigList : List SigListItem) :
    Rereads openFlag {} ((Notice.fdState name flags target).body sigList) (rereadFile flags) := by
  have nonempty : openTokens flags ≠ [] := by
    rw [openTokens]
    split <;> simp
  refine ⟨optionText (openTokens flags), ?_, tab_notMem_optionText nonempty fun _ => openTokens_plain, ?_⟩
  · rw [Notice.body, fdText_file file]
    exact flagsField_options nameFree (by decide) nonempty fun _ => openTokens_plain
  · rw [commaList_optionText nonempty fun _ member => (openTokens_plain member).1]
    exact openTokens_parse flags

theorem socket_rereads (socket : IsSocket flags) (nameFree : tab ∉ name) (target : Option Bytes)
    (sigList : List SigListItem) :
    Rereads socketFlag { socket := true } ((Notice.fdState name flags target).body sigList) (rereadSocket flags) := by
  have nonempty : socketTokens flags ≠ [] := by simp [socketTokens]
  refine ⟨optionText (socketTokens flags), ?_, tab_notMem_optionText nonempty fun _ => socketTokens_plain, ?_⟩
  · rw [Notice.body, fdText_socket socket]
    exact flagsField_options nameFree (by decide) nonempty fun _ => socketTokens_plain
  · rw [commaList_optionText nonempty fun _ member => (socketTokens_plain member).1]
    exact socketTokens_parse socket

end DaemonProxy.Proofs
