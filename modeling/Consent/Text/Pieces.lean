/-! Text in which some places hold bytes instead of characters. -/

namespace Consent.Text

/-- One place of a text: a character, or a byte that is no part of a character. -/
inductive Piece where
  | char (c : Char)
  | byte (b : UInt8)
  deriving DecidableEq, Repr

def isContinuation (b : UInt8) : Bool := 0x80 ≤ b && b < 0xc0

def continuationBits (b : UInt8) : Nat := b.toNat - 0x80

/-- The character that the bytes begin with in UTF-8, and how many bytes follow its first.
Encodings longer than need be, surrogates and numbers past the last character are none. -/
def leadingChar? : List UInt8 → Option (Char × Nat)
  | [] => none
  | b :: rest =>
    if b < 0x80 then some (Char.ofNat b.toNat, 0)
    else
      match rest with
      | c :: rest =>
        if !isContinuation c then none
        else if 0xc2 ≤ b && b < 0xe0 then
          some (Char.ofNat ((b.toNat - 0xc0) * 64 + continuationBits c), 1)
        else
          match rest with
          | d :: rest =>
            if !isContinuation d then none
            else if 0xe0 ≤ b && b < 0xf0 then
              let n := (b.toNat - 0xe0) * 4096 + continuationBits c * 64 + continuationBits d
              if 0x800 ≤ n && !(0xd800 ≤ n && n < 0xe000) then some (Char.ofNat n, 2) else none
            else
              match rest with
              | e :: _ =>
                let n := (b.toNat - 0xf0) * 262144 + continuationBits c * 4096
                  + continuationBits d * 64 + continuationBits e
                if 0xf0 ≤ b && isContinuation e && 0x10000 ≤ n && n < 0x110000 then
                  some (Char.ofNat n, 3)
                else none
              | [] => none
          | [] => none
      | [] => none

def leadingBytes : List Piece → List UInt8
  | .byte b :: rest => b :: leadingBytes rest
  | _ => []

/-- Replaces runs of bytes by the characters they spell; `skip` bytes are already used. -/
def settleFrom : Nat → List Piece → List Piece
  | _, [] => []
  | skip + 1, _ :: rest => settleFrom skip rest
  | 0, .char c :: rest => .char c :: settleFrom 0 rest
  | 0, .byte b :: rest =>
    match leadingChar? (b :: leadingBytes rest) with
    | some (c, more) => .char c :: settleFrom more rest
    | none => .byte b :: settleFrom 0 rest

def settle (s : List Piece) : List Piece := settleFrom 0 s

def replacement : Char := Char.ofNat 0xfffd

def Piece.toChar : Piece → Char
  | .char c => c
  | .byte _ => replacement

/-- The first `n` bytes of a text; a character that they cut is left as bytes. -/
def takeBytes : Nat → List Char → List Piece
  | _, [] => []
  | n, c :: rest =>
    let bytes := String.utf8EncodeChar c
    if bytes.length ≤ n then .char c :: takeBytes (n - bytes.length) rest
    else (bytes.take n).map .byte

@[simp] theorem settle_map_char (s : List Char) : settle (s.map .char) = s.map .char := by
  unfold settle
  induction s with
  | nil => rfl
  | cons c r ih => simp [settleFrom, ih]

end Consent.Text
