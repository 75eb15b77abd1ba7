import JsonShapes.Text.Basic

/-!
# UTF-8

Strict encoding and decoding. Decoding accepts exactly the well-formed sequences: no overlong
forms, no surrogates, nothing above U+10FFFF. A failure names the ill-formed bytes by position and
says which of the three ways of being ill-formed applies, the longest well-formed beginning of a
sequence being taken as one unit.
-/

namespace JsonShapes.Utf8

/-- Why a run of bytes is ill-formed. -/
inductive Reason where
  | startByte
  | continuationByte
  | endOfData
deriving DecidableEq

/-- The bytes of the first ill-formed run, and where the run starts. -/
structure DecodeError where
  position : Nat
  bytes : List UInt8
  reason : Reason
deriving DecidableEq

/-- The first surrogate of a text that has no encoding, and where it stands. -/
structure EncodeError where
  position : Nat
  first : CodePoint
  count : Nat
deriving DecidableEq

/-- The one to four bytes of a code point. -/
def encodePoint (c : CodePoint) : List UInt8 :=
  let n := c.val
  if n < 0x80 then [n.toUInt8]
  else if n < 0x800 then [(0xC0 + n / 0x40).toUInt8, (0x80 + n % 0x40).toUInt8]
  else if n < 0x10000 then
    [(0xE0 + n / 0x1000).toUInt8, (0x80 + n / 0x40 % 0x40).toUInt8, (0x80 + n % 0x40).toUInt8]
  else
    [(0xF0 + n / 0x40000).toUInt8, (0x80 + n / 0x1000 % 0x40).toUInt8,
      (0x80 + n / 0x40 % 0x40).toUInt8, (0x80 + n % 0x40).toUInt8]

/-- The run of surrogates at which encoding a text stops. -/
def encodeError? (t : Text) : Option EncodeError :=
  match t.dropWhile fun c => !c.isSurrogate with
  | [] => none
  | c :: rest =>
    some ⟨(t.takeWhile fun d => !d.isSurrogate).length, c,
      ((c :: rest).takeWhile CodePoint.isSurrogate).length⟩

/-- The bytes of a text without surrogates. -/
def encode (t : Text) : Except EncodeError (List UInt8) :=
  match encodeError? t with
  | some e => .error e
  | none => .ok (t.flatMap encodePoint)

/-- Whether a byte can continue a sequence. -/
def isContinuation (b : UInt8) : Bool := 0x80 ≤ b && b ≤ 0xBF

/-- The second byte of a sequence is narrower than a continuation byte where a wider one would
spell an overlong form, a surrogate or a number past the last code point. -/
def secondByteOk (lead second : UInt8) : Bool :=
  if lead == 0xE0 then 0xA0 ≤ second && second ≤ 0xBF
  else if lead == 0xED then 0x80 ≤ second && second ≤ 0x9F
  else if lead == 0xF0 then 0x90 ≤ second && second ≤ 0xBF
  else if lead == 0xF4 then 0x80 ≤ second && second ≤ 0x8F
  else isContinuation second

/-- The payload of a continuation byte. -/
def payload (b : UInt8) : Nat := b.toNat % 0x40

/-- The text that bytes spell, with positions counted from `position`. -/
def decodeFrom (position : Nat) : List UInt8 → Except DecodeError Text
  | [] => .ok []
  | a :: rest =>
    if a < 0x80 then (CodePoint.ofNat a.toNat :: ·) <$> decodeFrom (position + 1) rest
    else if a < 0xC2 || 0xF4 < a then .error ⟨position, [a], .startByte⟩
    else
      match rest with
      | [] => .error ⟨position, [a], .endOfData⟩
      | b :: rest =>
        if !secondByteOk a b then .error ⟨position, [a], .continuationByte⟩
        else if a < 0xE0 then
          (CodePoint.ofNat ((a.toNat - 0xC0) * 0x40 + payload b) :: ·) <$>
            decodeFrom (position + 2) rest
        else
          match rest with
          | [] => .error ⟨position, [a, b], .endOfData⟩
          | c :: rest =>
            if !isContinuation c then .error ⟨position, [a, b], .continuationByte⟩
            else if a < 0xF0 then
              (CodePoint.ofNat ((a.toNat - 0xE0) * 0x1000 + payload b * 0x40 + payload c) :: ·) <$>
                decodeFrom (position + 3) rest
            else
              match rest with
              | [] => .error ⟨position, [a, b, c], .endOfData⟩
              | d :: rest =>
                if !isContinuation d then .error ⟨position, [a, b, c], .continuationByte⟩
                else
                  (CodePoint.ofNat ((a.toNat - 0xF0) * 0x40000 + payload b * 0x1000 +
                    payload c * 0x40 + payload d) :: ·) <$> decodeFrom (position + 4) rest

/-- The text that bytes spell. -/
def decode (bytes : List UInt8) : Except DecodeError Text := decodeFrom 0 bytes

/-- The wording of a reason. -/
def Reason.message : Reason → Text
  | .startByte => "invalid start byte"
  | .continuationByte => "invalid continuation byte"
  | .endOfData => "unexpected end of data"

/-- The wording of a failed decoding. -/
def DecodeError.message (e : DecodeError) : Text :=
  let which : Text :=
    match e.bytes with
    | [b] => "byte 0x" ++ Text.hex 2 b.toNat ++ " in position " ++ Text.ofNat e.position
    | bs => "bytes in position " ++ Text.ofNat e.position ++ "-" ++
        Text.ofNat (e.position + bs.length - 1)
  "'utf-8' codec can't decode " ++ which ++ ": " ++ e.reason.message

/-- The wording of a failed encoding. -/
def EncodeError.message (e : EncodeError) : Text :=
  let which : Text :=
    if e.count ≤ 1 then
      "character '\\u" ++ Text.hex 4 e.first.val ++ "' in position " ++ Text.ofNat e.position
    else
      "characters in position " ++ Text.ofNat e.position ++ "-" ++
        Text.ofNat (e.position + e.count - 1)
  "'utf-8' codec can't encode " ++ which ++ ": surrogates not allowed"

end JsonShapes.Utf8
