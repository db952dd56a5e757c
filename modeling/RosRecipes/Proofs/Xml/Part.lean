import RosRecipes.Proofs.Manifest.Tree
import RosRecipes.Proofs.Xml.Markup

/-!
# Documents as they are written

A document is a sequence of parts, each with its spelling: elements with their two tags and what is between, elements
of one tag, texts, literal sections, and asides, which mean nothing.  `Spelling parts s` says that the document `s`
consists of these parts.

Reading a document gives the events of what its parts stand for (`read_eq_ok`), by induction on the parts, with any rest
of the document behind them.  A document that is read to its end, and closes what it opens, has parts
(`exists_spelling`): its rest always closes the elements that are open (`Closes`), from the end of the document to its
beginning.
-/

namespace RosRecipes.Xml

/-- A part of a document as it is written. -/
inductive Part where
  | element (opening : List Char) (tag : Tag) (children : List Part) (closing : List Char)
  /-- An element that is opened and closed by one tag. -/
  | void (spelling : List Char) (tag : Tag)
  | text (raw : List Char)
  /-- A text that is taken literally. -/
  | literal (spelling : List Char) (content : List Char)
  /-- A comment, an instruction or a document type. -/
  | aside (spelling : List Char)

mutual

/-- The text of a part. -/
def Part.written : Part → List Char
  | .element opening _ children closing => opening ++ written children ++ closing
  | .void spelling _ => spelling
  | .text raw => raw
  | .literal spelling _ => spelling
  | .aside spelling => spelling

/-- The text of several parts. -/
def written : List Part → List Char
  | [] => []
  | part :: parts => part.written ++ written parts

end

/-- A text ends where the next markup begins. -/
structure IsText (raw after : List Char) : Prop where
  nonempty : raw ≠ []
  plain : '<' ∉ raw
  next : after = [] ∨ after.head? = some '<'

/-- The tag of an element. -/
def Part.tag? : Part → Option Tag
  | .element _ tag _ _ => some tag
  | .void _ tag => some tag
  | .text _ => none
  | .literal _ _ => none
  | .aside _ => none

/-- The parts inside of an element. -/
def Part.children : Part → List Part
  | .element _ _ children _ => children
  | .void _ _ => []
  | .text _ => []
  | .literal _ _ => []
  | .aside _ => []

def Part.isElement (part : Part) : Bool := part.tag?.isSome

/-- Is the part an element of that name? -/
def Part.isNamed (name : String) (part : Part) : Bool := part.tag?.any (·.name = name)

mutual

/-- The spelling of a part is one of its markup, before the rest `after` of a document. -/
def Part.WellSpelled : Part → (after : List Char) → Prop
  | .element opening tag children closing, after =>
    Spells (written children ++ (closing ++ after)) opening (.opening tag) ∧
      WellSpelled children (closing ++ after) ∧ Spells after closing (.closing tag.name)
  | .void spelling tag, after => Spells after spelling (.selfClosing tag)
  | .text raw, after => IsText raw after
  | .literal spelling content, after => Spells after spelling (.literal content)
  | .aside spelling, after => Spells after spelling .ignored

def WellSpelled : List Part → (after : List Char) → Prop
  | [], _ => True
  | part :: parts, after => part.WellSpelled (written parts ++ after) ∧ WellSpelled parts after

end

/-- The parts make up a document.  A single bracket at its very end says nothing. -/
def Spelling (parts : List Part) (s : List Char) : Prop :=
  ∃ tail, (tail = [] ∨ tail = ['<']) ∧ s = written parts ++ tail ∧ WellSpelled parts tail

mutual

/-- What a part stands for, `offset` being its position. -/
def Part.nodes (offset : Nat) : Part → List Node
  | .element opening tag children closing =>
    let start := offset + Text.byteLength opening
    let stop := start + Text.byteLength (written children) + Text.byteLength closing
    [.element tag start (nodes start children) stop]
  | .void spelling tag => [.void tag (offset + Text.byteLength spelling)]
  | .text raw => [.text raw]
  | .literal _ content => [.literal content]
  | .aside _ => []

/-- What several parts stand for. -/
def nodes (offset : Nat) : List Part → List Node
  | [] => []
  | part :: parts => part.nodes offset ++ nodes (offset + Text.byteLength part.written) parts

end

theorem events_append (nodes nodes' : List Node) : events (nodes ++ nodes') = events nodes ++ events nodes' := by
  induction nodes with
  | nil => rfl
  | cons node nodes ih => rw [List.cons_append, events, events, ih, List.append_assoc]

theorem events_element (offset : Nat) (opening : List Char) (tag : Tag) (children : List Part) (closing : List Char) :
    events ((Part.element opening tag children closing).nodes offset) =
      .opening tag (offset + Text.byteLength opening) ::
        (events (nodes (offset + Text.byteLength opening) children) ++
          [.closing
            (offset + Text.byteLength opening + Text.byteLength (written children) + Text.byteLength closing)]) := by
  rw [Part.nodes, events, events, List.append_nil, Node.events]

/-! ### Reading step by step -/

variable {s rest after : List Char} {opened : List String} {offset : Nat}

theorem Spells.start {m : Markup} (h : Spells after s m) : ∃ c others, s = '<' :: c :: others := by
  cases h with
  | @opening body => cases body <;> exact ⟨_, _, rfl⟩
  | @selfClosing body => cases body <;> exact ⟨_, _, rfl⟩
  | closing _ hs => rcases hs with rfl | ⟨rfl, -⟩ <;> exact ⟨_, _, rfl⟩
  | @literal mark body hmark =>
    obtain ⟨c, others, rfl, -⟩ := List.map_eq_cons_iff.1 hmark
    exact ⟨_, _, rfl⟩
  | comment => exact ⟨_, _, rfl⟩
  | @documentType mark body hmark =>
    obtain ⟨c, others, rfl, -⟩ := List.map_eq_cons_iff.1 hmark
    exact ⟨_, _, rfl⟩
  | instruction _ _ hs => rcases hs with rfl | ⟨rfl, -⟩ <;> exact ⟨_, _, rfl⟩

/-- A document with more events before it. -/
def Document.behind (events : List Event) (document : Document) : Document :=
  { document with events := events ++ document.events }

/-- What follows some markup is read with the elements that are open then. -/
def Markup.before (opened : List String) (stop : Nat) (read : List String → Document) : Markup → Document
  | .opening tag => (read (tag.name :: opened)).behind [.opening tag stop]
  | .selfClosing tag => (read opened).behind [.selfClosing tag stop]
  | .literal text => (read opened).behind [.literal text]
  | .ignored => read opened
  | .closing name =>
    match opened with
    | [] => ⟨[], false⟩
    | innermost :: opened => if name = innermost then (read opened).behind [.closing stop] else ⟨[], false⟩

private theorem readFrom_markup {m : Markup} (h : Spells after s m) (fuel : Nat) :
    Document.readFrom opened offset (s ++ after) (fuel + 1) =
      m.before opened (offset + Text.byteLength s) fun opened =>
        Document.readFrom opened (offset + Text.byteLength s) after fuel := by
  obtain ⟨c, others, rfl⟩ := h.start
  have hread : readMarkup? (c :: (others ++ after)) = some (m, after) := readMarkup?_eq_some_iff.2 ⟨_, h, rfl⟩
  have hstop : offset + Text.byteLength ('<' :: c :: (others ++ after)) - Text.byteLength after =
      offset + Text.byteLength ('<' :: c :: others) := by
    rw [← List.cons_append, ← List.cons_append, Text.byteLength_append]
    omega
  rw [List.cons_append, List.cons_append, Document.readFrom, hread]
  · simp only [hstop]
    cases m with
    | closing name => cases opened <;> rfl
    | ignored => rfl
    | opening tag => rfl
    | selfClosing tag => rfl
    | literal text => rfl
  · nofun

private theorem readFrom_text {raw : List Char} (h : IsText raw after) (fuel : Nat) :
    Document.readFrom opened offset (raw ++ after) (fuel + 1) =
      (Document.readFrom opened (offset + Text.byteLength raw) after fuel).behind [.text raw] := by
  have hcut : cutAt '<' (raw ++ after) = (raw, after.drop 1) := by
    refine cutAt_eq_iff.2 ⟨h.plain, ?_⟩
    rcases h.next with rfl | hnext
    · exact .inr ⟨List.append_nil _, rfl⟩
    · obtain ⟨others, rfl⟩ := List.head?_eq_some_iff.1 hnext
      exact .inl rfl
  have htake : (raw ++ after).takeWhile (· ≠ '<') = raw := congrArg Prod.fst hcut
  have hdrop : (raw ++ after).dropWhile (· ≠ '<') = after := by
    have hsplit := List.takeWhile_append_dropWhile (p := (· ≠ '<')) (l := raw ++ after)
    rw [htake] at hsplit
    exact List.append_cancel_left hsplit
  have hstart : ∀ inside, raw ++ after ≠ '<' :: inside := by
    intro inside heq
    cases raw with
    | nil => exact h.nonempty rfl
    | cons c raw => exact h.plain (List.mem_cons.2 (.inl (List.cons.inj heq).1.symm))
  rw [Document.readFrom, htake, hdrop]
  · rfl
  · exact fun heq => h.nonempty (List.append_eq_nil_iff.1 heq).1
  · exact fun heq => hstart _ heq
  · exact fun inside heq => hstart _ heq

/-- Everything up to the next markup is a text. -/
private theorem exists_isText {c : Char} (hc : c ≠ '<') (s : List Char) :
    ∃ raw after, IsText raw after ∧ c :: s = raw ++ after := by
  have hstart : (c :: s).takeWhile (· ≠ '<') ≠ [] := by
    rw [List.takeWhile_cons_of_pos (by simpa using hc)]
    exact List.cons_ne_nil _ _
  refine ⟨(c :: s).takeWhile (· ≠ '<'), (c :: s).dropWhile (· ≠ '<'), ⟨hstart, ?_, ?_⟩,
    List.takeWhile_append_dropWhile.symm⟩
  · intro hmem
    have hne := List.mem_takeWhile_imp hmem
    simp at hne
  · cases hdrop : (c :: s).dropWhile (· ≠ '<') with
    | nil => exact .inl rfl
    | cons d after =>
      have hd := List.head?_dropWhile_not (· ≠ '<') (c :: s)
      rw [hdrop] at hd
      simp at hd
      exact .inr (congrArg some hd)

/-- How the rest of a document can begin. -/
private theorem rest_cases (s : List Char) :
    s = [] ∨ s = ['<'] ∨ (∃ raw after, IsText raw after ∧ s = raw ++ after) ∨
      (∃ spelling m after, Spells after spelling m ∧ s = spelling ++ after) ∨
      ∀ opened offset fuel, Document.readFrom opened offset s fuel = ⟨[], false⟩ := by
  match s with
  | [] => exact .inl rfl
  | c :: inside =>
    by_cases hc : c = '<'
    · subst hc
      match inside with
      | [] => exact .inr (.inl rfl)
      | d :: inside =>
        refine .inr (.inr (.inr ?_))
        cases hread : readMarkup? (d :: inside) with
        | some result =>
          obtain ⟨spelling, hspells, hs⟩ := readMarkup?_eq_some_iff.1 hread
          exact .inl ⟨spelling, result.1, result.2, hspells, hs⟩
        | none =>
          refine .inr fun opened offset fuel => ?_
          cases fuel with
          | zero => rfl
          | succ fuel =>
            rw [Document.readFrom, hread]
            nofun
    · exact .inr (.inr (.inl (exists_isText hc inside)))

private theorem before_congr {m : Markup} {stop : Nat} {read read' : List String → Document}
    (h : ∀ opened, read opened = read' opened) : m.before opened stop read = m.before opened stop read' :=
  congrArg (fun read => m.before opened stop read) (funext h)

/-- Fuel for every character is enough. -/
private theorem readFrom_congr {fuel fuel' : Nat} (h : s.length < fuel) (h' : s.length < fuel') :
    Document.readFrom opened offset s fuel = Document.readFrom opened offset s fuel' := by
  induction fuel generalizing s opened offset fuel' with
  | zero => exact absurd h (Nat.not_lt_zero _)
  | succ fuel ih =>
    obtain ⟨fuel', rfl⟩ := Nat.exists_eq_succ_of_ne_zero (Nat.ne_of_gt (Nat.zero_lt_of_lt h'))
    rcases rest_cases s with rfl | rfl | ⟨raw, after, htext, rfl⟩ | ⟨spelling, m, after, hspells, rfl⟩ | hnone
    · rfl
    · rfl
    · have hlength := List.length_pos_iff.2 htext.nonempty
      rw [List.length_append] at h h'
      have hafter : after.length < fuel' := by omega
      rw [readFrom_text htext, readFrom_text htext, ih (by omega) hafter]
    · obtain ⟨c, others, hspelling⟩ := hspells.start
      have hlength : 0 < spelling.length := by simp [hspelling]
      rw [List.length_append] at h h'
      rw [readFrom_markup hspells, readFrom_markup hspells]
      exact before_congr fun opened => ih (by omega) (by omega)
    · rw [hnone, hnone]

/-- Reads the rest of a document to its end. -/
def Document.readRest (opened : List String) (offset : Nat) (s : List Char) : Document :=
  Document.readFrom opened offset s (s.length + 1)

theorem readRest_nil : Document.readRest opened offset [] = ⟨[], true⟩ := rfl

theorem readRest_bracket : Document.readRest opened offset ['<'] = ⟨[], true⟩ := rfl

theorem readRest_text {raw : List Char} (h : IsText raw after) :
    Document.readRest opened offset (raw ++ after) =
      (Document.readRest opened (offset + Text.byteLength raw) after).behind [.text raw] := by
  have hlength := List.length_pos_iff.2 h.nonempty
  rw [Document.readRest, readFrom_text h, Document.readRest,
    readFrom_congr (by rw [List.length_append]; omega) (Nat.lt_succ_self after.length)]

theorem readRest_markup {m : Markup} (h : Spells after s m) :
    Document.readRest opened offset (s ++ after) =
      m.before opened (offset + Text.byteLength s) fun opened =>
        Document.readRest opened (offset + Text.byteLength s) after := by
  obtain ⟨c, others, hs⟩ := h.start
  have hlength : 0 < s.length := by simp [hs]
  rw [Document.readRest, readFrom_markup h]
  exact before_congr fun opened => readFrom_congr (by rw [List.length_append]; omega) (Nat.lt_succ_self _)

theorem read_eq_readRest (source : List Char) :
    Document.read source = Document.readRest [] 0 (dropByteOrderMark source) := by
  have hlength : (dropByteOrderMark source).length ≤ source.length := by
    unfold dropByteOrderMark
    split
    · exact Nat.le_succ _
    · exact Nat.le_refl _
  exact readFrom_congr (Nat.lt_succ_of_le hlength) (Nat.lt_succ_self _)

/-! ### Reading parts -/

theorem behind_behind (events events' : List Event) (document : Document) :
    (document.behind events').behind events = document.behind (events ++ events') := by
  rw [Document.behind, Document.behind, Document.behind, List.append_assoc]

mutual

/-- A part is read as what it stands for. -/
theorem readRest_part (part : Part) (after : List Char) (h : part.WellSpelled after) (opened : List String)
    (offset : Nat) :
    Document.readRest opened offset (part.written ++ after) =
      (Document.readRest opened (offset + Text.byteLength part.written) after).behind (events (part.nodes offset)) := by
  match part with
  | .element opening tag children closing =>
    obtain ⟨hopening, hchildren, hclosing⟩ := h
    have hwritten : (Part.element opening tag children closing).written ++ after =
        opening ++ (written children ++ (closing ++ after)) := by
      rw [Part.written, List.append_assoc, List.append_assoc]
    have hstop : offset + Text.byteLength (Part.element opening tag children closing).written =
        offset + Text.byteLength opening + Text.byteLength (written children) + Text.byteLength closing := by
      rw [Part.written, Text.byteLength_append, Text.byteLength_append]
      omega
    rw [hwritten, hstop, readRest_markup hopening, Markup.before,
      readRest_parts children (closing ++ after) hchildren, readRest_markup hclosing, Markup.before, if_pos rfl,
      behind_behind, behind_behind, events_element]
    rfl
  | .void spelling tag =>
    rw [Part.written, readRest_markup h, Markup.before]
    rfl
  | .text raw =>
    rw [Part.written, readRest_text h]
    rfl
  | .literal spelling content =>
    rw [Part.written, readRest_markup h, Markup.before]
    rfl
  | .aside spelling =>
    rw [Part.written, readRest_markup h, Markup.before]
    rfl

theorem readRest_parts (parts : List Part) (after : List Char) (h : WellSpelled parts after) (opened : List String)
    (offset : Nat) :
    Document.readRest opened offset (written parts ++ after) =
      (Document.readRest opened (offset + Text.byteLength (written parts)) after).behind
        (events (nodes offset parts)) := by
  match parts with
  | [] => rfl
  | part :: parts =>
    obtain ⟨hpart, hparts⟩ := h
    rw [written, List.append_assoc, readRest_part part _ hpart, readRest_parts parts after hparts, behind_behind, nodes,
      events_append, Text.byteLength_append, Nat.add_assoc]

end

/-- Reading a document gives what its parts stand for. -/
theorem read_eq_ok {parts : List Part} {source : List Char} (h : Spelling parts (dropByteOrderMark source)) :
    Document.read source = ⟨events (nodes 0 parts), true⟩ := by
  obtain ⟨tail, htail, hs, hparts⟩ := h
  rw [read_eq_readRest, hs, readRest_parts parts tail hparts]
  rcases htail with rfl | rfl
  · rw [readRest_nil, Document.behind, List.append_nil]
  · rw [readRest_bracket, Document.behind, List.append_nil]

/-! ### Every document has parts -/

/-- The number of open elements after an event. -/
def Event.depthAfter (depth : Nat) : Event → Nat
  | .opening .. => depth + 1
  | .closing .. => depth - 1
  | .selfClosing .. => depth
  | .text .. => depth
  | .literal .. => depth

/-- The rest of a document in which the given elements are open, innermost first. -/
inductive Closes : List String → List Char → Prop where
  | document (parts : List Part) {tail : List Char} (htail : tail = [] ∨ tail = ['<'])
    (hparts : WellSpelled parts tail) :
    Closes [] (written parts ++ tail)
  | element (parts : List Part) {name : String} {opened : List String} {closing after : List Char}
    (hparts : WellSpelled parts (closing ++ after)) (hclosing : Spells after closing (.closing name))
    (hafter : Closes opened after) : Closes (name :: opened) (written parts ++ (closing ++ after))

theorem Closes.push (part : Part) (hpart : part.WellSpelled after) (h : Closes opened after) :
    Closes opened (part.written ++ after) := by
  cases h with
  | document parts htail hparts =>
    rw [← List.append_assoc]
    exact .document (part :: parts) htail ⟨hpart, hparts⟩
  | element parts hparts hclosing hafter =>
    rw [← List.append_assoc]
    exact .element (part :: parts) ⟨hpart, hparts⟩ hclosing hafter

theorem closes_of_readRest (h : (Document.readRest opened offset s).complete = true)
    (hdepth : (Document.readRest opened offset s).events.foldl Event.depthAfter opened.length = 0) :
    Closes opened s := by
  induction hlength : s.length using Nat.strong_induction_on generalizing s opened offset with
  | h n ih =>
  subst hlength
  rcases rest_cases s with rfl | rfl | ⟨raw, after, htext, rfl⟩ | ⟨spelling, m, after, hspells, rfl⟩ | hnone
  · rw [readRest_nil] at hdepth
    obtain rfl := List.length_eq_zero_iff.1 hdepth
    exact .document [] (.inl rfl) trivial
  · rw [readRest_bracket] at hdepth
    obtain rfl := List.length_eq_zero_iff.1 hdepth
    exact .document [] (.inr rfl) trivial
  · have hshort : after.length < (raw ++ after).length := by
      have := List.length_pos_iff.2 htext.nonempty
      rw [List.length_append]
      omega
    rw [readRest_text htext] at h hdepth
    exact Closes.push (.text raw) htext (ih _ hshort h hdepth rfl)
  · have hshort : after.length < (spelling ++ after).length := by
      obtain ⟨c, others, hspelling⟩ := hspells.start
      rw [List.length_append, hspelling]
      simp
    rw [readRest_markup hspells] at h hdepth
    cases m with
    | opening tag =>
      -- The element ends where what is open with it closes.
      have hinside : Closes (tag.name :: opened) after := ih _ hshort h hdepth rfl
      cases hinside with
      | @element children _ _ closing after hchildren hclosing hafter =>
        have hpush := Closes.push (.element spelling tag children closing) ⟨hspells, hchildren, hclosing⟩ hafter
        rw [Part.written, List.append_assoc, List.append_assoc] at hpush
        exact hpush
    | selfClosing tag => exact Closes.push (.void spelling tag) hspells (ih _ hshort h hdepth rfl)
    | literal content => exact Closes.push (.literal spelling content) hspells (ih _ hshort h hdepth rfl)
    | ignored => exact Closes.push (.aside spelling) hspells (ih _ hshort h hdepth rfl)
    | closing name =>
      cases opened with
      | nil => cases h
      | cons innermost opened =>
        rw [Markup.before] at h hdepth
        split at h
        case isTrue hname =>
          subst hname
          rw [if_pos rfl] at hdepth
          exact .element [] trivial hspells (ih _ hshort h hdepth rfl)
        case isFalse => cases h
  · rw [Document.readRest, hnone] at h
    cases h

/-- A document that is read to its end, with no element left open, is spelled out by parts. -/
theorem exists_spelling {source : List Char} (h : (Document.read source).complete = true)
    (hdepth : (Document.read source).events.foldl Event.depthAfter 0 = 0) :
    ∃ parts, Spelling parts (dropByteOrderMark source) := by
  rw [read_eq_readRest] at h hdepth
  have hcloses := closes_of_readRest h hdepth
  generalize dropByteOrderMark source = s at hcloses
  cases hcloses with
  | document parts htail hparts => exact ⟨parts, _, htail, rfl, hparts⟩

end RosRecipes.Xml
