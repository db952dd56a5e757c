import RosRecipes.Text.Blank

/-!
# Text as bytes

Positions in a text are counted in the bytes of its UTF-8 form.  Bytes that are not a text are either
refused, with the place of the first fault (`firstFault?`), or read with the replacement character U+FFFD in
the place of each fault (`decodeLossy`).
-/

namespace RosRecipes.Text

/-- The number of bytes of a text. -/
def byteLength (s : List Char) : Nat := s.foldl (fun n c => n + c.utf8Size) 0

theorem byteLength_append (a b : List Char) : byteLength (a ++ b) = byteLength a + byteLength b := by
  have hshift : ∀ (s : List Char) (n : Nat),
      s.foldl (fun n c => n + c.utf8Size) n = n + s.foldl (fun n c => n + c.utf8Size) 0 := by
    intro s
    induction s with
    | nil => simp
    | cons c s ih =>
      intro n
      rw [List.foldl_cons, List.foldl_cons, ih, ih (0 + c.utf8Size)]
      omega
  unfold byteLength
  rw [List.foldl_append, hshift]

theorem byteLength_cons (c : Char) (s : List Char) : byteLength (c :: s) = c.utf8Size + byteLength s := by
  rw [← List.singleton_append, byteLength_append]
  simp [byteLength]

/-- Drops `n` bytes; `none` if that is beyond the end or inside a character. -/
def dropBytes? : Nat → List Char → Option (List Char)
  | 0, s => some s
  | _ + 1, [] => none
  | n + 1, c :: cs => if c.utf8Size ≤ n + 1 then dropBytes? (n + 1 - c.utf8Size) cs else none
termination_by _ s => s.length

/-- Keeps `n` bytes; `none` if that is beyond the end or inside a character. -/
def takeBytes? : Nat → List Char → Option (List Char)
  | 0, _ => some []
  | _ + 1, [] => none
  | n + 1, c :: cs =>
    if c.utf8Size ≤ n + 1 then (takeBytes? (n + 1 - c.utf8Size) cs).map (c :: ·) else none
termination_by _ s => s.length

/-- The text from byte `start` up to byte `stop`, if both are boundaries of characters in this order. -/
def sliceBytes? (start stop : Nat) (s : List Char) : Option (List Char) :=
  if start ≤ stop then (dropBytes? start s).bind (takeBytes? (stop - start)) else none

/-- A fault in a sequence of bytes that should be a text. -/
structure Utf8Fault where
  /-- Bytes before the fault. -/
  position : Nat
  /-- Bytes that form the fault; `none` if the sequence ends inside a character. -/
  length : Option Nat
deriving DecidableEq, Repr

/-- What stands at the start of a sequence of bytes. -/
inductive Utf8Step where
  | char (c : Char) (size : Nat)
  | fault (size : Nat)
  | cut

private def isContinuation (b : UInt8) : Bool := b &&& 0xC0 == 0x80

/-- The range of the second byte after a given first byte of a longer character: it excludes overlong forms,
surrogates and values above U+10FFFF. -/
private def secondInRange (first second : UInt8) : Bool :=
  if first == 0xE0 then 0xA0 ≤ second && second ≤ 0xBF
  else if first == 0xED then 0x80 ≤ second && second ≤ 0x9F
  else if first == 0xF0 then 0x90 ≤ second && second ≤ 0xBF
  else if first == 0xF4 then 0x80 ≤ second && second ≤ 0x8F
  else isContinuation second

private def payload (b : UInt8) (bits : Nat) : Nat := b.toNat % (1 <<< bits)

/-- Reads the first character.  A fault is the longest start of some character, and at least one byte. -/
def Utf8Step.read : List UInt8 → Utf8Step
  | [] => .cut
  | a :: rest =>
    if a < 0x80 then .char (.ofNat a.toNat) 1
    else if 0xC2 ≤ a && a ≤ 0xDF then
      match rest with
      | [] => .cut
      | b :: _ => if isContinuation b then .char (.ofNat (payload a 5 * 64 + payload b 6)) 2 else .fault 1
    else if 0xE0 ≤ a && a ≤ 0xEF then
      match rest with
      | [] => .cut
      | b :: rest =>
        if !secondInRange a b then .fault 1
        else
          match rest with
          | [] => .cut
          | c :: _ =>
            if isContinuation c then .char (.ofNat ((payload a 4 * 64 + payload b 6) * 64 + payload c 6)) 3
            else .fault 2
    else if 0xF0 ≤ a && a ≤ 0xF4 then
      match rest with
      | [] => .cut
      | b :: rest =>
        if !secondInRange a b then .fault 1
        else
          match rest with
          | [] => .cut
          | c :: rest =>
            if !isContinuation c then .fault 2
            else
              match rest with
              | [] => .cut
              | d :: _ =>
                if isContinuation d then
                  .char (.ofNat (((payload a 3 * 64 + payload b 6) * 64 + payload c 6) * 64 + payload d 6)) 4
                else .fault 3
    else .fault 1

/-- The first fault of a sequence of bytes, `position` bytes of which have been read. -/
def firstFaultFrom? (position : Nat) (bytes : List UInt8) : (fuel : Nat) → Option Utf8Fault
  | 0 => none
  | fuel + 1 =>
    if bytes.isEmpty then none
    else
      match Utf8Step.read bytes with
      | .char _ size => firstFaultFrom? (position + size) (bytes.drop size) fuel
      | .fault size => some ⟨position, some size⟩
      | .cut => some ⟨position, none⟩

/-- The first fault of a sequence of bytes, if it is not a text. -/
def firstFault? (bytes : ByteArray) : Option Utf8Fault :=
  firstFaultFrom? 0 bytes.toList (bytes.size + 1)

/-- The wording of a fault. -/
def Utf8Fault.message (fault : Utf8Fault) : String :=
  match fault.length with
  | some size => "invalid utf-8 sequence of " ++ toString size ++ " bytes from index " ++ toString fault.position
  | none => "incomplete utf-8 byte sequence from index " ++ toString fault.position

/-- The character that stands for a fault. -/
def replacement : Char := '\uFFFD'

private def decodeLossyFrom (bytes : List UInt8) : (fuel : Nat) → List Char
  | 0 => []
  | fuel + 1 =>
    if bytes.isEmpty then []
    else
      match Utf8Step.read bytes with
      | .char c size => c :: decodeLossyFrom (bytes.drop size) fuel
      | .fault size => replacement :: decodeLossyFrom (bytes.drop size) fuel
      | .cut => [replacement]

/-- The text of a sequence of bytes, with a replacement character for each fault. -/
def decodeLossy (bytes : ByteArray) : String :=
  match String.fromUTF8? bytes with
  | some s => s
  | none => .ofList (decodeLossyFrom bytes.toList (bytes.size + 1))

end RosRecipes.Text
