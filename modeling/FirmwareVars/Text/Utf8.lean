/-!
# UTF-8

`encode` gives the bytes of a text.  `scan` goes the other way over any bytes:
it cuts them into well-formed sequences, each a character, and ill-formed
chunks.  A chunk is the longest start of a sequence that breaks off, or a
single byte that starts none.  So `E2 82` before a letter is one chunk, and an
encoded surrogate `ED A0 80` is three, since no sequence goes on from `ED` to
`A0`.

`text?` accepts the bytes with no ill-formed chunk, and `lossy` puts U+FFFD for
each chunk.
-/

namespace FirmwareVars.Utf8

/-- The bytes of a text. -/
def encode (s : String) : List UInt8 := s.toList.flatMap String.utf8EncodeChar

/-! ## Bytes of a sequence -/

/-- Whether a byte continues a sequence: its upper bits are `10`. -/
def isContinuation (b : UInt8) : Bool := b &&& 0xc0 == 0x80

/-- The length of the sequences that start with this byte, and zero if none
does. -/
def sequenceLength (lead : UInt8) : Nat :=
  if lead < 0x80 then 1
  else if lead < 0xc2 then 0
  else if lead < 0xe0 then 2
  else if lead < 0xf0 then 3
  else if lead < 0xf5 then 4
  else 0

/-- Whether a byte may come second after this lead.  The narrower ranges rule
out overlong forms, surrogates and code points above U+10FFFF. -/
def isSecond (lead b : UInt8) : Bool :=
  if lead = 0xe0 then 0xa0 ≤ b && b ≤ 0xbf
  else if lead = 0xed then 0x80 ≤ b && b ≤ 0x9f
  else if lead = 0xf0 then 0x90 ≤ b && b ≤ 0xbf
  else if lead = 0xf4 then 0x80 ≤ b && b ≤ 0x8f
  else isContinuation b

/-- The code point of a sequence: the payload of the lead, then six bits of each
further byte. -/
def codePoint (payload : UInt8) (more : List UInt8) : Nat :=
  more.foldl (fun v b => v * 64 + (b &&& 0x3f).toNat) payload.toNat

/-! ## Cutting bytes into characters -/

/-- The characters of the well-formed sequences in order, with `none` for each
ill-formed chunk. -/
def scan : List UInt8 → List (Option Char)
  | [] => []
  | a :: rest =>
      match sequenceLength a with
      | 1 => some (Char.ofNat a.toNat) :: scan rest
      | 2 =>
          match rest with
          | [] => [none]
          | b :: r =>
              if isSecond a b then some (Char.ofNat (codePoint (a &&& 0x1f) [b])) :: scan r
              else none :: scan (b :: r)
      | 3 =>
          match rest with
          | [] => [none]
          | b :: r =>
              if isSecond a b then
                match r with
                | [] => [none]
                | c :: t =>
                    if isContinuation c then
                      some (Char.ofNat (codePoint (a &&& 0x0f) [b, c])) :: scan t
                    else none :: scan (c :: t)
              else none :: scan (b :: r)
      | 4 =>
          match rest with
          | [] => [none]
          | b :: r =>
              if isSecond a b then
                match r with
                | [] => [none]
                | c :: t =>
                    if isContinuation c then
                      match t with
                      | [] => [none]
                      | d :: u =>
                          if isContinuation d then
                            some (Char.ofNat (codePoint (a &&& 0x07) [b, c, d])) :: scan u
                          else none :: scan (d :: u)
                    else none :: scan (c :: t)
              else none :: scan (b :: r)
      | _ => none :: scan rest
termination_by structural bytes => bytes

/-- The text that the bytes encode, if they are well formed throughout. -/
def text? (bytes : List UInt8) : Option String :=
  ((scan bytes).mapM id).map String.ofList

/-- The text with U+FFFD for each ill-formed chunk. -/
def lossy (bytes : List UInt8) : String :=
  String.ofList ((scan bytes).map fun c => c.getD '\uFFFD')

end FirmwareVars.Utf8
