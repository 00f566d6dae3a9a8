import DaemonProxy.Model.Sockaddr
import DaemonProxy.Proofs.FlagText

/-! # What is written in a socket address

`dottedQuad` is `inet_pton` for IPv4: it accepts the texts of the quads and nothing else. A string that is read to its end
is the text of an address, with or without a port behind it.
-/

namespace DaemonProxy.Proofs

open Lib Model

variable {name string host rest part : Bytes} {quad : Quad} {v : UInt8}

/-! ## Dotted quads -/

/-- The parts of a quad as they are written. -/
def quadParts (quad : Quad) : List Bytes :=
  [natText quad.b1.toNat, natText quad.b2.toNat, natText quad.b3.toNat, natText quad.b4.toNat]

/-- `127.0.0.1` and the like. -/
def quadText (quad : Quad) : Bytes := [46].intercalate (quadParts quad)

/-- The byte that a part stands for. -/
def octet (part : Bytes) : Option UInt8 := ((List.range 256).find? fun v => natText v = part).map UInt8.ofNat

def dottedQuad (name : Bytes) : Option Quad :=
  match name.splitOn 46 with
  | [p1, p2, p3, p4] => do return ⟨← octet p1, ← octet p2, ← octet p3, ← octet p4⟩
  | _ => none

theorem natText_injective {v w : ℕ} (same : natText v = natText w) : v = w := by
  have values := congrArg decimal same
  rw [decimal_natText, decimal_natText] at values
  exact Int.natCast_inj.mp values

theorem octet_eq_some : octet part = some v ↔ part = natText v.toNat := by
  rw [octet, Option.map_eq_some_iff]
  constructor
  · rintro ⟨w, found, rfl⟩
    have small : w < 256 := List.mem_range.mp (List.mem_of_find?_eq_some found)
    have text := List.find?_some found
    rw [UInt8.toNat_ofNat_of_lt' small]
    exact (of_decide_eq_true text).symm
  · rintro rfl
    obtain ⟨w, found⟩ : ∃ w, (List.range 256).find? (fun w => natText w = natText v.toNat) = some w := by
      rw [← Option.isSome_iff_exists, List.find?_isSome]
      exact ⟨v.toNat, List.mem_range.mpr v.toNat_lt, decide_eq_true rfl⟩
    have text := List.find?_some found
    exact ⟨w, found, by rw [natText_injective (of_decide_eq_true text), UInt8.ofNat_toNat]⟩

theorem quadParts_digits (member : part ∈ quadParts quad) {c : UInt8} (inside : c ∈ part) : isDigit c := by
  simp only [quadParts, List.mem_cons, List.not_mem_nil, or_false] at member
  rcases member with rfl | rfl | rfl | rfl
  all_goals exact natText_digits inside

theorem splitOn_quadText : (quadText quad).splitOn 46 = quadParts quad := by
  have free : ∀ part ∈ quadParts quad, 46 ∉ part := by
    intro part member dot
    exact absurd (quadParts_digits member dot) (by decide)
  exact List.splitOn_intercalate 46 free (List.cons_ne_nil _ _)

theorem dottedQuad_eq_some : dottedQuad name = some quad ↔ name = quadText quad := by
  constructor
  · intro parsed
    have whole : [46].intercalate (name.splitOn 46) = name := List.intercalate_splitOn 46
    unfold dottedQuad at parsed
    split at parsed
    · next p1 p2 p3 p4 parts =>
      simp only [Option.bind_eq_bind, Option.bind_eq_some_iff, Option.pure_def, octet_eq_some] at parsed
      obtain ⟨b1, rfl, b2, rfl, b3, rfl, b4, rfl, ⟨⟩⟩ := parsed
      rw [← whole, parts]
      rfl
    · cases parsed
  · rintro rfl
    have parts (v : UInt8) : octet (natText v.toNat) = some v := octet_eq_some.mpr rfl
    rw [dottedQuad, splitOn_quadText, quadParts]
    simp only [parts, Option.bind_eq_bind, Option.bind_some, Option.pure_def]

theorem quadText_plain {c : UInt8} (member : c ∈ quadText quad) : c = 46 ∨ isDigit c := by
  by_cases dot : c = 46
  · exact .inl dot
  · obtain ⟨part, found, inside⟩ := exists_mem_splitOn member dot
    rw [splitOn_quadText] at found
    exact .inr (quadParts_digits found inside)

theorem length_quadText_le : (quadText quad).length ≤ 15 := by
  have short (v : UInt8) : (natText v.toNat).length ≤ 3 := length_natText_le (by decide) (by have := v.toNat_lt; omega)
  have short1 := short quad.b1
  have short2 := short quad.b2
  have short3 := short quad.b3
  have short4 := short quad.b4
  simp only [quadText, quadParts, List.intercalate, List.intersperse_cons_cons, List.intersperse_singleton, List.flatten_cons,
    List.flatten_nil, List.length_append, List.length_cons, List.length_nil]
  omega

/-! ## Addresses and ports -/

/-- What stands in front of a port: a star, or a dotted quad. -/
inductive WrittenHost : Bytes → Quad → Prop
  | any : WrittenHost [42] inaddrAny
  | quad (quad : Quad) : WrittenHost (quadText quad) quad

theorem quadText_ne_nil : quadText quad ≠ [] := by
  intro empty
  have parts : (quadText quad).splitOn 46 = quadParts quad := splitOn_quadText
  rw [empty] at parts
  have lengths : 1 = 4 := congrArg List.length parts
  omega

theorem inetHostAddr_quad (stops : ∀ c ∈ rest.head?, c = 58) :
    Sockaddr.inetHostAddr dottedQuad (quadText quad ++ rest) = some (quad, rest) := by
  have plain : ∀ c ∈ quadText quad, decide (c = 46 ∨ (digit? c).isSome) = true := by
    intro c member
    rcases quadText_plain member with dot | digit
    · exact decide_eq_true (.inl dot)
    · exact decide_eq_true (.inr (by rw [digit?_eq, if_pos digit]; rfl))
  have taken : (quadText quad ++ rest).takeWhile (fun c => c = 46 ∨ (digit? c).isSome) = quadText quad := by
    rw [List.takeWhile_append_of_pos plain]
    cases rest with
    | nil => rw [List.takeWhile_nil, List.append_nil]
    | cons c later =>
      obtain rfl := stops c rfl
      rw [List.takeWhile_cons_of_neg (by decide), List.append_nil]
  have noStar : (quadText quad ++ rest).head? ≠ some 42 := by
    have nonempty : quadText quad ≠ [] := quadText_ne_nil
    obtain ⟨c, later, text⟩ := List.exists_cons_of_ne_nil nonempty
    have first := plain c (by rw [text]; exact List.mem_cons_self)
    rw [text]
    rintro ⟨⟩
    exact absurd first (by decide)
  have short : (quadText quad).length ≤ 15 := length_quadText_le
  rw [Sockaddr.inetHostAddr, if_neg noStar]
  simp only [taken]
  rw [if_neg (by simp only [quadText_ne_nil, false_or]; omega), dottedQuad_eq_some.mpr rfl, List.drop_left, Option.map_some]

theorem WrittenHost.parsed (written : WrittenHost host quad) (stops : ∀ c ∈ rest.head?, c = 58) :
    Sockaddr.inetHostAddr dottedQuad (host ++ rest) = some (quad, rest) := by
  cases written with
  | any => rfl
  | quad => exact inetHostAddr_quad stops

theorem writtenHost_of_parsed (parsed : Sockaddr.inetHostAddr dottedQuad string = some (quad, rest)) :
    ∃ host, string = host ++ rest ∧ WrittenHost host quad := by
  rw [Sockaddr.inetHostAddr] at parsed
  split at parsed
  · next star =>
    obtain ⟨later, rfl⟩ := List.head?_eq_some_iff.mp star
    cases parsed
    exact ⟨[42], rfl, .any⟩
  · dsimp only at parsed
    split at parsed
    · cases parsed
    · obtain ⟨sinAddr, valid, same⟩ := Option.map_eq_some_iff.mp parsed
      cases same
      refine ⟨quadText quad, ?_, .quad quad⟩
      have taken := dottedQuad_eq_some.mp valid
      obtain ⟨later, whole⟩ := List.takeWhile_prefix (l := string) fun c => decide (c = 46 ∨ (digit? c).isSome = true)
      rw [taken] at whole
      subst whole
      rw [taken, List.drop_left]

theorem toNat_htons (v : UInt16) : (htons v).toNat = v.toNat % 256 * 256 + v.toNat / 256 := by
  have small : v.toNat < 65536 := v.toNat_lt
  exact UInt16.toNat_ofNat_of_lt' (show _ < 65536 by omega)

/-- The bytes are swapped back. -/
theorem htons_htons (v : UInt16) : htons (htons v) = v := by
  have small : v.toNat < 65536 := v.toNat_lt
  apply UInt16.toNat.inj
  rw [toNat_htons, toNat_htons]
  omega

/-- The port that is sent is the number modulo 65536. -/
theorem htons_sinPort (portInt : ℤ) : ((htons (Sockaddr.sinPort (wrap 64 portInt))).toNat : ℤ) = portInt % 65536 := by
  rw [Sockaddr.sinPort, htons_htons, UInt16.ofInt, UInt16.toNat_ofNat_of_lt' (show _ < 65536 by omega)]
  simp only [wrap, Int.bmod]
  omega

/-- What the case `AF_INET` reads to the end of the string. -/
inductive ReadsPort (sinAddr : Quad) : Bytes → Sockaddr → Prop
  | none : ReadsPort sinAddr [] (.inet sinAddr 0)
  | number {number : Bytes} {value : ℤ} (digits : denoted number = some (value, [])) :
      ReadsPort sinAddr (58 :: number) (.inet sinAddr (Sockaddr.sinPort (wrap 64 value)))

theorem inetPort_eq_some {sinAddr : Quad} {addr : Sockaddr} :
    Sockaddr.inetPort sinAddr rest = some (addr, []) ↔ ReadsPort sinAddr rest addr := by
  constructor
  · intro parsed
    unfold Sockaddr.inetPort at parsed
    split at parsed
    · rw [strsegAtoi_eq] at parsed
      simp only [Option.map_eq_some_iff, Prod.exists, Prod.mk.injEq] at parsed
      obtain ⟨_, _, ⟨value, _, digits, rfl, rfl⟩, rfl, rfl⟩ := parsed
      exact .number digits
    · cases parsed
      exact .none
  · intro reads
    cases reads with
    | none => rfl
    | number digits => rw [Sockaddr.inetPort, strsegAtoi_eq, digits, Option.map_some, Option.map_some]

/-- A string is read to its end when an address and perhaps a port are written in it. -/
theorem parsesTo_iff {addr : Sockaddr} :
    Sockaddr.strsegParseSockaddr dottedQuad .inet string = some (addr, []) ↔
      ∃ host rest quad, string = host ++ rest ∧ WrittenHost host quad ∧ ReadsPort quad rest addr := by
  rw [Sockaddr.strsegParseSockaddr]
  constructor
  · intro parsed
    split at parsed
    · cases parsed
    · obtain ⟨⟨quad, rest⟩, host, port⟩ := Option.bind_eq_some_iff.mp parsed
      obtain ⟨written, whole, valid⟩ := writtenHost_of_parsed host
      exact ⟨written, rest, quad, whole, valid, inetPort_eq_some.mp port⟩
  · rintro ⟨host, rest, quad, rfl, written, reads⟩
    have nonempty : host ++ rest ≠ [] := by
      cases written with
      | any => exact List.cons_ne_nil _ _
      | quad => exact List.append_ne_nil_of_left_ne_nil quadText_ne_nil _
    have stops : ∀ c ∈ rest.head?, c = 58 := by
      cases reads with
      | none => rintro c ⟨⟩
      | number => rintro c ⟨⟩; rfl
    rw [if_neg nonempty]
    exact Option.bind_eq_some_iff.mpr ⟨(quad, rest), written.parsed stops, inetPort_eq_some.mpr reads⟩

/-! ## What is left of the string -/

theorem inetHostAddr_rest (inetPton : Bytes → Option Quad) (string : Bytes) :
    (Sockaddr.inetHostAddr inetPton string).map Prod.snd = inetHost (fun name => (inetPton name).isSome) string := by
  rw [Sockaddr.inetHostAddr, inetHost]
  dsimp only
  generalize string.takeWhile (fun c => c = 46 ∨ (digit? c).isSome) = nameBuf
  by_cases star : string.head? = some 42
  · rw [if_pos star, if_pos star, Option.map_some]
  · rw [if_neg star, if_neg star]
    by_cases unfit : nameBuf = [] ∨ 255 ≤ nameBuf.length
    · rw [if_pos unfit, if_pos (or_assoc.mp (.inl unfit)), Option.map_none]
    · rw [if_neg unfit]
      cases inetPton nameBuf with
      | none => rw [if_pos (.inr (.inr rfl)), Option.map_none, Option.map_none]
      | some sinAddr =>
        have accepted : ¬(nameBuf = [] ∨ 255 ≤ nameBuf.length ∨ (some sinAddr).isSome = false) := by
          rw [← or_assoc]
          exact not_or.mpr ⟨unfit, by rintro ⟨⟩⟩
        rw [if_neg accepted, Option.map_some, Option.map_some]

theorem inetPort_rest (sinAddr : Quad) (rest : Bytes) :
    (Sockaddr.inetPort sinAddr rest).map Prod.snd = match rest with
      | 58 :: port => (strsegAtoi port).map Prod.snd
      | _ => some rest := by
  by_cases found : ∃ port, rest = 58 :: port
  · obtain ⟨port, rfl⟩ := found
    exact Option.map_map ..
  · have other : ∀ port, rest = 58 :: port → False := fun port same => found ⟨port, same⟩
    simp [Sockaddr.inetPort, other]

/-- The two models of `strseg_parse_sockaddr` leave the same of the string. -/
theorem strsegParseSockaddr_rest (inetPton : Bytes → Option Quad) (domain : SockDomain) (string : Bytes) :
    (Sockaddr.strsegParseSockaddr inetPton domain string).map Prod.snd =
      strsegParseSockaddr (fun name => (inetPton name).isSome) domain string := by
  unfold Sockaddr.strsegParseSockaddr strsegParseSockaddr
  by_cases empty : string = []
  · rw [if_pos empty, if_pos empty, Option.map_none]
  · rw [if_neg empty, if_neg empty]
    cases domain with
    | unix =>
      dsimp only
      by_cases long : sunPathSize ≤ string.length
      · rw [if_pos long, if_pos long, Option.map_none]
      · rw [if_neg long, if_neg long, Option.map_some]
    | inet =>
      dsimp only
      rw [← inetHostAddr_rest]
      cases Sockaddr.inetHostAddr inetPton string with
      | none => rfl
      | some found => exact inetPort_rest found.1 found.2
    | inet6 => rfl

end DaemonProxy.Proofs
