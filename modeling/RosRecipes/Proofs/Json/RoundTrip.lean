import RosRecipes.Json

/-!
# What is written is read

A text stands for a value if it is read as this value, whatever follows it (`Json.Reads`).  Each way to write keeps
that:

* `reads_writeString` is about strings, whatever is escaped in them,
* `reads_writeObject` about objects, if the values of the fields have been written so.
-/

namespace RosRecipes.Json

/-! ### Strings -/

/-- The escapes of the characters that have no letter of their own. -/
private theorem escape?_control {n : Nat} (h : n < 32) (rest : List Char) :
    escape? ('u' :: '0' :: '0' :: Nat.digitChar (n / 16) :: Nat.digitChar (n % 16) :: rest) =
      some (.char (.ofNat n), rest) := by
  have hnumber : ∀ n < 32, Xml.number? 16 ['0', '0', Nat.digitChar (n / 16), Nat.digitChar (n % 16)] = some n ∧
      n.isValidChar := by
    decide
  obtain ⟨hn, hvalid⟩ := hnumber n h
  change (Xml.number? 16 _).bind _ = _
  rw [hn]
  exact if_pos hvalid

private theorem pieces?_escapeCharacter (c : Char) (rest : List Char) (read : List Piece) (fuel : Nat) :
    pieces? (escapeCharacter c ++ rest) read (fuel + 1) = pieces? rest (.char c :: read) fuel := by
  unfold escapeCharacter
  split
  -- A character without a letter of its own is a control character, or is written as it is.
  case h_8 hquote hbackslash _ _ _ _ _ =>
    by_cases hcontrol : c < ' '
    · have hn : c.toNat < 32 := hcontrol
      rw [if_pos hcontrol]
      change ((escape? ('u' :: '0' :: '0' :: _ :: _ :: rest)).bind _) = _
      rw [escape?_control hn, Char.ofNat_toNat]
      rfl
    · rw [if_neg hcontrol]
      change pieces? (c :: rest) read (fuel + 1) = _
      rw [pieces?]
      · rw [if_neg hcontrol]
      · exact hquote
      · exact hbackslash
  all_goals rfl

private theorem pieces?_write (cs rest : List Char) (read : List Piece) (fuel : Nat) (hfuel : cs.length < fuel) :
    pieces? (cs.flatMap escapeCharacter ++ '"' :: rest) read fuel = some (read.reverse ++ cs.map .char, rest) := by
  induction cs generalizing read fuel with
  | nil =>
    obtain ⟨fuel, rfl⟩ := Nat.exists_eq_add_of_lt hfuel
    simp [pieces?]
  | cons c cs ih =>
    obtain ⟨fuel, rfl⟩ : ∃ n, fuel = n + 1 := Nat.exists_eq_succ_of_ne_zero (by omega)
    rw [List.flatMap_cons, List.append_assoc, pieces?_escapeCharacter, ih _ _ (by simpa using hfuel)]
    simp

private theorem characters?_char (cs : List Char) : characters? (cs.map .char) = some cs := by
  induction cs with
  | nil => rfl
  | cons c cs ih => rw [List.map_cons, characters?, ih, Option.map_some]

private theorem length_le_escaped (cs : List Char) : cs.length ≤ (cs.flatMap escapeCharacter).length := by
  have hpos : ∀ c, 1 ≤ (escapeCharacter c).length := by
    intro c
    unfold escapeCharacter
    split <;> try exact Nat.le_add_left 1 _
    split <;> exact Nat.le_add_left 1 _
  induction cs with
  | nil => exact Nat.le_refl 0
  | cons c cs ih =>
    have := hpos c
    rw [List.flatMap_cons, List.length_append, List.length_cons]
    omega

theorem toList_writeString (s : String) :
    (writeString s).toList = '"' :: (s.toList.flatMap escapeCharacter ++ ['"']) := by
  unfold writeString
  simp [String.toList_append]

private theorem string?_write (s : String) (rest : List Char) :
    string? (s.toList.flatMap escapeCharacter ++ '"' :: rest) = some (some s, rest) := by
  have hlength := length_le_escaped s.toList
  have hpieces := pieces?_write s.toList rest [] ((s.toList.flatMap escapeCharacter ++ '"' :: rest).length + 1)
    (by rw [List.length_append]; omega)
  unfold string?
  rw [hpieces]
  change some ((characters? (s.toList.map .char)).map _, rest) = _
  rw [characters?_char, Option.map_some, String.ofList_toList]

/-! ### Values -/

/-- The text is read as the value, whatever follows it. -/
def Reads (text : List Char) (v : Json) : Prop :=
  ∀ rest fuel, text.length < fuel → value? (text ++ rest) fuel = some (v, rest)

theorem reads_writeString (s : String) : Reads (writeString s).toList (.string (some s)) := by
  intro rest fuel hfuel
  obtain ⟨fuel, rfl⟩ : ∃ n, fuel = n + 1 := Nat.exists_eq_succ_of_ne_zero (by omega)
  rw [toList_writeString, List.cons_append, List.append_assoc]
  change (string? (s.toList.flatMap escapeCharacter ++ '"' :: rest)).map _ = _
  rw [string?_write]
  rfl

/-- A field, with its key, the text of its value, and the value. -/
structure Field where
  key : String
  text : String
  value : Json

namespace Field

def write (f : Field) : List Char := (writeString f.key).toList ++ ':' :: f.text.toList

def writeAll : List Field → List Char
  | [] => []
  | f :: fs => f.write ++ fs.flatMap fun g => ',' :: g.write

theorem writeAll_cons_cons (f g : Field) (fs : List Field) :
    writeAll (f :: g :: fs) = f.write ++ ',' :: writeAll (g :: fs) := rfl

end Field

open Field (writeAll)

theorem toList_writeObject (fields : List Field) :
    (writeObject (fields.map fun f => (f.key, f.text))).toList = '\x7b' :: (writeAll fields ++ ['\x7d']) := by
  have hall : List.intercalate [','] (fields.map Field.write) = writeAll fields := by
    induction fields with
    | nil => rfl
    | cons f fs ih =>
      cases fs with
      | nil => simp [writeAll]
      | cons g fs =>
        rw [Field.writeAll_cons_cons, ← ih]
        simp [List.intercalate_cons_cons]
  unfold writeObject
  dsimp only
  rw [String.toList_append, String.toList_append, String.toList_intercalate, List.map_map, List.map_map, ← hall,
    List.map_congr_left (g := Field.write)]
  · rfl
  · intro f _
    simp [Field.write, String.toList_append]

private theorem fields?_write (f : Field) (hf : Reads f.text.toList f.value) (rest : List Char)
    (read : List (Option String × Json)) {fuel : Nat} (hfuel : f.write.length ≤ fuel) :
    fields? (f.write ++ rest) read (fuel + 1) =
      match skipBlanks rest with
      | ',' :: rest => fields? rest ((some f.key, f.value) :: read) fuel
      | '\x7d' :: rest => some (.object ((some f.key, f.value) :: read).reverse, rest)
      | _ => none := by
  have hvalue : f.text.toList.length < fuel := by
    rw [Field.write, List.length_append, List.length_cons] at hfuel
    omega
  rw [Field.write, toList_writeString, List.cons_append, List.cons_append, List.append_assoc, List.append_assoc]
  change (string? (f.key.toList.flatMap escapeCharacter ++ '"' :: ':' :: (f.text.toList ++ rest))).bind _ = _
  rw [string?_write]
  change (value? (f.text.toList ++ rest) fuel).bind _ = _
  rw [hf rest fuel hvalue]
  rfl

private theorem fields?_writeAll (f : Field) (fs : List Field) (h : ∀ g ∈ f :: fs, Reads g.text.toList g.value)
    (rest : List Char) (read : List (Option String × Json)) {fuel : Nat} (hfuel : (writeAll (f :: fs)).length < fuel) :
    fields? (writeAll (f :: fs) ++ '\x7d' :: rest) read fuel =
      some (.object (read.reverse ++ (f :: fs).map fun g => (some g.key, g.value)), rest) := by
  obtain ⟨fuel, rfl⟩ : ∃ n, fuel = n + 1 := Nat.exists_eq_succ_of_ne_zero (by omega)
  obtain ⟨hf, hfs⟩ := List.forall_mem_cons.1 h
  -- What has been read grows at its front; the fuel is enough for one character each.
  induction fs generalizing f read fuel with
  | nil =>
    have hone : writeAll [f] = f.write := List.append_nil _
    rw [hone] at hfuel ⊢
    rw [fields?_write f hf _ _ (by omega)]
    change some (Json.object ((some f.key, f.value) :: read).reverse, rest) = _
    rw [List.reverse_cons]
    rfl
  | cons g fs ih =>
    rw [Field.writeAll_cons_cons] at hfuel ⊢
    rw [List.length_append, List.length_cons] at hfuel
    obtain ⟨fuel, rfl⟩ : ∃ n, fuel = n + 1 := Nat.exists_eq_succ_of_ne_zero (by omega)
    rw [List.append_assoc, fields?_write f hf _ _ (by omega)]
    change fields? (writeAll (g :: fs) ++ '\x7d' :: rest) ((some f.key, f.value) :: read) (fuel + 1) = _
    rw [ih g hfs _ fuel (by omega) (hfs g List.mem_cons_self) fun x hx => hfs x (List.mem_cons_of_mem _ hx)]
    simp

theorem reads_writeObject (fields : List Field) (h : ∀ f ∈ fields, Reads f.text.toList f.value) :
    Reads (writeObject (fields.map fun f => (f.key, f.text))).toList
      (.object (fields.map fun f => (some f.key, f.value))) := by
  intro rest fuel hfuel
  rw [toList_writeObject] at hfuel ⊢
  rw [List.length_cons, List.length_append] at hfuel
  obtain ⟨fuel, rfl⟩ : ∃ n, fuel = n + 1 := Nat.exists_eq_succ_of_ne_zero (by omega)
  rw [List.cons_append, List.append_assoc]
  cases fields with
  | nil => rfl
  | cons f fs =>
    -- The first field begins with a quote, so the object is not empty.
    have hstart : ∃ more, writeAll (f :: fs) ++ ['\x7d'] ++ rest = '"' :: more := by
      rw [writeAll, Field.write, toList_writeString]
      exact ⟨_, rfl⟩
    have hvalue : value? ('\x7b' :: (writeAll (f :: fs) ++ ['\x7d'] ++ rest)) (fuel + 1) =
        fields? (writeAll (f :: fs) ++ ['\x7d'] ++ rest) [] fuel := by
      obtain ⟨more, hmore⟩ := hstart
      rw [hmore]
      rfl
    rw [List.append_assoc] at hvalue
    rw [hvalue]
    exact fields?_writeAll f fs h rest [] (by omega)

/-- A text that stands for a value is read as a whole. -/
theorem read?_of_reads {s : String} {v : Json} (h : Reads s.toList v) : read? s = some v := by
  have hvalue := h [] (2 * s.toList.length + 2) (by omega)
  rw [List.append_nil] at hvalue
  unfold read?
  rw [hvalue]
  rfl

end RosRecipes.Json
