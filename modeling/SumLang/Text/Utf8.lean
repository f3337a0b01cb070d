/-!
# Decoding of UTF-8

A byte sequence is read into characters, or refused at its first ill-formed
sequence. The refusal tells the offset of that sequence, its bytes up to the one that
breaks the form, and which of three rules was broken.
-/

namespace SumLang.Utf8

/-- The rule that an ill-formed sequence breaks. -/
inductive Flaw where
  /-- No sequence starts with this byte. -/
  | badStart
  /-- The next byte cannot continue the sequence. -/
  | badContinuation
  /-- The bytes end inside the sequence. -/
  | cutOff
  deriving DecidableEq, Repr

/-- The first ill-formed sequence: its offset, the bytes that form its valid part, and the flaw. -/
structure DecodeError where
  offset : Nat
  bytes : List UInt8
  flaw : Flaw
  deriving DecidableEq, Repr

/-- The wording of a flaw. -/
def Flaw.reason : Flaw → String
  | .badStart => "invalid start byte"
  | .badContinuation => "invalid continuation byte"
  | .cutOff => "unexpected end of data"

/-- The number of continuation bytes that a first byte announces, if it can start a sequence. -/
def continuations (lead : UInt8) : Option Nat :=
  if lead < 0x80 then some 0
  else if lead < 0xC2 then none
  else if lead < 0xE0 then some 1
  else if lead < 0xF0 then some 2
  else if lead < 0xF5 then some 3
  else none

/-- The payload bits of a first byte that announces `n` continuation bytes. -/
def leadBits (n : Nat) (lead : UInt8) : Nat :=
  match n with
  | 0 => lead.toNat
  | 1 => lead.toNat % 0x20
  | 2 => lead.toNat % 0x10
  | _ => lead.toNat % 0x08

/-- Whether `b` may follow the first byte: overlong forms, surrogates and code points past the
last one are excluded here. -/
def admitsSecond (lead b : UInt8) : Bool :=
  let lo : UInt8 := if lead = 0xE0 then 0xA0 else if lead = 0xF0 then 0x90 else 0x80
  let hi : UInt8 := if lead = 0xED then 0x9F else if lead = 0xF4 then 0x8F else 0xBF
  lo ≤ b && b ≤ hi

/-- Whether `b` may stand at the third or fourth place of a sequence. -/
def admitsLater (b : UInt8) : Bool := 0x80 ≤ b && b ≤ 0xBF

/-- The outcome of reading one sequence. -/
inductive Taken where
  /-- A code point and the bytes after its sequence. -/
  | char (code : Nat) (rest : List UInt8)
  /-- The flaw and the bytes of the valid part read so far. -/
  | flawed (flaw : Flaw) (seen : List UInt8)

/-- Reads `n` continuation bytes; `seen` are the bytes of the sequence so far. -/
def takeLater : Nat → (code : Nat) → (seen : List UInt8) → List UInt8 → Taken
  | 0, code, _, rest => .char code rest
  | _ + 1, _, seen, [] => .flawed .cutOff seen
  | n + 1, code, seen, b :: rest =>
    if admitsLater b then takeLater n (code * 0x40 + b.toNat % 0x40) (seen ++ [b]) rest
    else .flawed .badContinuation seen

/-- Reads the sequence that starts with `lead`. -/
def takeSequence (lead : UInt8) (rest : List UInt8) : Taken :=
  match continuations lead with
  | none => .flawed .badStart [lead]
  | some 0 => .char lead.toNat rest
  | some (n + 1) =>
    match rest with
    | [] => .flawed .cutOff [lead]
    | b :: rest =>
      if admitsSecond lead b then
        takeLater n (leadBits (n + 1) lead * 0x40 + b.toNat % 0x40) [lead, b] rest
      else .flawed .badContinuation [lead]

/-- Continuation bytes are only ever dropped from the front. -/
theorem length_rest_of_takeLater {n code : Nat} {seen bytes rest : List UInt8} {r : Nat}
    (h : takeLater n code seen bytes = .char r rest) : rest.length ≤ bytes.length := by
  induction n generalizing code seen bytes with
  | zero => simp only [takeLater, Taken.char.injEq] at h; simp [h.2]
  | succ n ih =>
    cases bytes with
    | nil => simp [takeLater] at h
    | cons b bytes =>
      rw [takeLater] at h
      split at h
      · exact Nat.le_succ_of_le (ih h)
      · simp at h

/-- What follows a sequence is no longer than what follows its first byte. -/
theorem length_rest_of_takeSequence {lead : UInt8} {bytes rest : List UInt8} {r : Nat}
    (h : takeSequence lead bytes = .char r rest) : rest.length ≤ bytes.length := by
  unfold takeSequence at h
  split at h
  · simp at h
  · simp only [Taken.char.injEq] at h; simp [h.2]
  · split at h
    · simp at h
    · split at h
      · exact Nat.le_succ_of_le (length_rest_of_takeLater h)
      · simp at h

/-- Reads all bytes from `offset` on. -/
def decodeFrom (offset : Nat) : List UInt8 → Except DecodeError (List Char)
  | [] => .ok []
  | lead :: bytes =>
    match h : takeSequence lead bytes with
    | .flawed flaw seen => .error ⟨offset, seen, flaw⟩
    | .char code rest =>
      have := length_rest_of_takeSequence h
      (decodeFrom (offset + (bytes.length + 1 - rest.length)) rest).map (Char.ofNat code :: ·)
  termination_by bytes => bytes.length

/-- Reads a byte sequence as UTF-8. -/
def decode (bytes : List UInt8) : Except DecodeError String :=
  (decodeFrom 0 bytes).map String.ofList

end SumLang.Utf8
