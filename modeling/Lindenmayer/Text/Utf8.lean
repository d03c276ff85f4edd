import Lindenmayer.Text.Quoted

/-!
# UTF-8

Files are sequences of octets in UTF-8. Decoding stops at the first octets that no character can
start with, and says where they are and what is wrong with them.
-/

namespace Lindenmayer.Utf8

open Text

/-- What keeps octets from being a character. -/
inductive Problem where
  /-- The first octet starts no character. -/
  | invalidStart
  /-- An octet that must continue the character does not. -/
  | invalidContinuation
  /-- The octets end inside the character. -/
  | unexpectedEnd
deriving DecidableEq, Repr

/-- The octets that cannot be decoded: the first of them, where it is, how many they are. -/
structure Fault where
  octet : UInt8
  position : Nat
  length : Nat
  problem : Problem
deriving DecidableEq, Repr

/-- What a first octet announces: how many octets continue the character, the range of the first
of those, and the bits the first octet contributes. -/
structure Lead where
  more : Nat
  low : Nat
  high : Nat
  bits : Nat

/-- What an octet announces as the first of a character. -/
def Lead.ofOctet? (octet : Nat) : Option Lead :=
  if octet < 0x80 then some ⟨0, 0x80, 0xBF, octet⟩
  else if octet < 0xC2 then none
  else if octet < 0xE0 then some ⟨1, 0x80, 0xBF, octet - 0xC0⟩
  else if octet = 0xE0 then some ⟨2, 0xA0, 0xBF, 0⟩
  else if octet = 0xED then some ⟨2, 0x80, 0x9F, 0xD⟩
  else if octet < 0xF0 then some ⟨2, 0x80, 0xBF, octet - 0xE0⟩
  else if octet = 0xF0 then some ⟨3, 0x90, 0xBF, 0⟩
  else if octet < 0xF4 then some ⟨3, 0x80, 0xBF, octet - 0xF0⟩
  else if octet = 0xF4 then some ⟨3, 0x80, 0x8F, 4⟩
  else none

/-- The character that is under way. -/
structure Pending where
  lead : UInt8
  start : Nat
  /-- Octets read so far. -/
  count : Nat
  /-- Octets still to come. -/
  more : Nat
  low : Nat
  high : Nat
  code : Nat

/-- Decodes octets from the given position on, after the characters in `done`, latest first. -/
def decodeFrom (position : Nat) (pending : Option Pending) (done : List Char) :
    List UInt8 → Except Fault (List Char)
  | [] =>
    match pending with
    | none => .ok done.reverse
    | some p => .error ⟨p.lead, p.start, p.count, .unexpectedEnd⟩
  | octet :: rest =>
    let n := octet.toNat
    match pending with
    | none =>
      match Lead.ofOctet? n with
      | none => .error ⟨octet, position, 1, .invalidStart⟩
      | some ⟨0, _, _, bits⟩ => decodeFrom (position + 1) none (Char.ofNat bits :: done) rest
      | some ⟨more, low, high, bits⟩ =>
        decodeFrom (position + 1) (some ⟨octet, position, 1, more, low, high, bits⟩) done rest
    | some p =>
      if p.low ≤ n && n ≤ p.high then
        let code := p.code * 64 + (n - 0x80)
        if p.more ≤ 1 then decodeFrom (position + 1) none (Char.ofNat code :: done) rest
        else
          let next : Pending :=
            { p with count := p.count + 1, more := p.more - 1, low := 0x80, high := 0xBF, code }
          decodeFrom (position + 1) (some next) done rest
      else .error ⟨p.lead, p.start, p.count, .invalidContinuation⟩

/-- The characters of a file. -/
def decode (octets : ByteArray) : Except Fault (List Char) :=
  decodeFrom 0 none [] octets.toList

/-- The wording of a problem. -/
def Problem.message : Problem → String
  | .invalidStart => "invalid start byte"
  | .invalidContinuation => "invalid continuation byte"
  | .unexpectedEnd => "unexpected end of data"

/-- The wording of a fault; a single octet is named by its value. -/
def Fault.message (fault : Fault) : String :=
  let place :=
    if fault.length = 1 then
      let octet := String.ofList (hexDigits 2 fault.octet.toNat)
      s!"byte 0x{octet} in position {fault.position}"
    else
      let last := fault.position + fault.length - 1
      s!"bytes in position {fault.position}-{last}"
  let problem := fault.problem.message
  s!"'utf-8' codec can't decode {place}: {problem}"

end Lindenmayer.Utf8
