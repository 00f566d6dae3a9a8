import DaemonProxy.Lib.Wrap

/-! # Length-delimited strings (`strseg.c`)

A string segment whose length is at least zero is a list of bytes. The tokenizer leaves length
`-1` behind once the last token is taken; that state is `none`, and it is a state of the string
being consumed only: the tokens themselves are byte lists.
-/

namespace DaemonProxy.Model

open Lib

abbrev Bytes := List UInt8

/-- A string being consumed; `none` is the length `-1` of a string with no token left. -/
abbrev StrSeg := Option Bytes

/-- The bytes of a C string literal. -/
def bytesOf (text : String) : Bytes := text.toList.map (fun c => UInt8.ofNat c.toNat)

/-- The value of a (signed) `char`. -/
def charVal (c : UInt8) : ℤ := if c.toNat < 128 then c.toNat else (c.toNat : ℤ) - 256

/-- `strseg_cmp`: lexicographic on `char` values, then by length. -/
def strsegCmp : Bytes → Bytes → ℤ
  | [], [] => 0
  | [], _ :: _ => -1
  | _ :: _, [] => 1
  | a :: as, b :: bs => if a ≠ b then (if charVal a < charVal b then -1 else 1) else strsegCmp as bs

/-- The bytes before the first separator, and the bytes after it if there is one. -/
def splitAtSep (sep : UInt8) : Bytes → Bytes × StrSeg
  | [] => ([], none)
  | c :: rest =>
      if c = sep then ([], some rest)
      else ((c :: (splitAtSep sep rest).1), (splitAtSep sep rest).2)

/-- `strseg_tok_next`: the next token and what is left, or `none` when it returns false. -/
def strsegTokNext (string : StrSeg) (sep : UInt8) : Option (Bytes × StrSeg) :=
  string.map (splitAtSep sep)

/-- The value of an ASCII digit. -/
def digit? (c : UInt8) : Option ℤ :=
  if 48 ≤ c.toNat ∧ c.toNat ≤ 57 then some (c.toNat - 48) else none

/-- The digit loop of `strseg_atoi`: the accumulated value, the number of digits taken and the
rest of the string. -/
def atoiDigits (accum : ℤ) (count : ℕ) : Bytes → ℤ × ℕ × Bytes
  | [] => (accum, count, [])
  | c :: rest =>
      match digit? c with
      | some d => atoiDigits (wrap 64 (accum * 10 + d)) (count + 1) rest
      | none => (accum, count, c :: rest)

/-- `strseg_atoi`: the value and the unconsumed rest, or `none` when there is no digit. -/
def strsegAtoi (string : Bytes) : Option (ℤ × Bytes) :=
  let (sign, body) := match string with
    | 45 :: rest => ((-1 : ℤ), rest)
    | _ => (1, string)
  match atoiDigits 0 0 body with
  | (_, 0, _) => none
  | (accum, _, rest) => some (wrap 64 (accum * sign), rest)

end DaemonProxy.Model
