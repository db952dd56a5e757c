import RosRecipes.Proofs.Text.Bytes
import RosRecipes.Proofs.Xml.Part

/-!
# The description of a manifest

The description is cut out of the source by the places where two tags end, and by a search for the last closing tag
between them.  It turns out to be the markup between the tags of the last description in the package
(`parse_description`), but for documents behind a byte order mark: the places do not count that, so that the end of the
opening tag comes with the markup (`description_with_tag`).

Little of what is read matters for the description (`Outline`), and what an event does to that is said once
(`outline_follow`).  It is then followed through the parts of a document: elements inside of elements are passed over
(`follow_deep`), a child of the package counts if it is a description (`follow_child`), and the places of its tags lead
to its markup in the source (`innerMarkup_eq`).
-/

namespace RosRecipes.Manifest

open Xml (Node Part Tag Event)

variable {source : List Char} {p p' : Progress}

/-! ### What the description depends on -/

/-- What matters for the description: the open elements with their starts, innermost first, whether there was a root,
and the description so far. -/
structure Outline where
  frames : List (String × Nat) := []
  rootSeen : Bool := false
  description : String := ""

def Progress.outline (p : Progress) : Outline where
  frames := p.frames.map fun frame => (frame.name, frame.start)
  rootSeen := p.rootSeen
  description := p.draft.description

namespace Outline

/-- Outside of all elements there is room for one, the package. -/
def enter? (o : Outline) (name : String) : Option Outline :=
  if o.frames = [] then if o.rootSeen = false ∧ name = "package" then some { o with rootSeen := true } else none
  else some o

/-- The markup of an element counts if that is a description in the package. -/
def close (o : Outline) (name markup : String) : Outline :=
  if o.frames.map Prod.fst = ["package"] ∧ name = "description" then { o with description := markup } else o

/-- Follows one event of the document `source`. -/
def follow? (source : List Char) (o : Outline) : Event → Option Outline
  | .opening tag stop => (o.enter? tag.name).map fun o => { o with frames := (tag.name, stop) :: o.frames }
  | .selfClosing tag _ => (o.enter? tag.name).map (·.close tag.name "")
  | .closing stop =>
    match o.frames with
    | [] => none
    | (name, start) :: frames => some ({ o with frames }.close name (innerMarkup source start stop))
  | .text _ => some o
  | .literal _ => some o

end Outline

/-- A closed element changes the description only if it is one. -/
theorem description_of_close {draft closed : Draft} {parents : List String} {frame : Frame} {markup : String}
    (h : draft.close parents frame markup = .ok closed) :
    closed.description = if parents = ["package"] ∧ frame.name = "description" then markup else draft.description := by
  unfold Draft.close at h
  dsimp only at h
  split at h
  case isTrue hexport =>
    obtain ⟨condition, -, h⟩ := bind_eq_ok_iff.1 h
    cases h
    rw [if_neg (by simp [hexport.1])]
  case isFalse =>
    split at h
    case isFalse hroot =>
      cases h
      rw [if_neg (fun h => hroot h.1)]
    case isTrue hroot =>
      split at h
      · next hname =>
        cases h
        rw [if_neg (by simp [hname])]
      · next hname =>
        cases h
        rw [if_neg (by simp [hname])]
      · next hname =>
        cases h
        rw [if_pos ⟨hroot, hname⟩]
      · next hname =>
        cases h
        rw [if_neg (by simp [hname])]
      · next hname _ =>
        rw [if_neg (fun h => hname h.2)]
        split at h
        · cases h
          rfl
        · split at h
          · cases h
          · obtain ⟨condition, -, h⟩ := bind_eq_ok_iff.1 h
            cases h
            rfl

theorem outline_enter {tag : Tag} {stop : Nat} {frame : Frame} (h : p.enter tag stop = .ok (p', frame)) :
    p.outline.enter? tag.name = some p'.outline ∧ frame.name = tag.name ∧ frame.start = stop := by
  unfold Progress.enter at h
  unfold Outline.enter?
  by_cases hframes : p.frames = []
  · rw [if_pos (by simp [hframes])] at h
    rw [if_pos (by simp [Progress.outline, hframes])]
    split at h
    case isTrue => cases h
    case isFalse hroot =>
      rw [Bool.or_eq_true, decide_eq_true_iff, not_or, not_not, Bool.not_eq_true] at hroot
      have hfirst : p.outline.rootSeen = false ∧ tag.name = "package" := hroot
      rw [if_pos hfirst]
      obtain ⟨format, -, h⟩ := bind_eq_ok_iff.1 h
      split at h
      · obtain ⟨_, hq, h⟩ := bind_eq_ok_iff.1 h
        cases hq
        obtain ⟨condition, -, h⟩ := bind_eq_ok_iff.1 h
        cases h
        exact ⟨rfl, rfl, rfl⟩
      · split at h
        · cases h
        · obtain ⟨_, hq, h⟩ := bind_eq_ok_iff.1 h
          cases hq
          obtain ⟨condition, -, h⟩ := bind_eq_ok_iff.1 h
          cases h
          exact ⟨rfl, rfl, rfl⟩
  · rw [if_neg (by simp [hframes])] at h
    rw [if_neg (by simp [Progress.outline, hframes])]
    obtain ⟨_, hq, h⟩ := bind_eq_ok_iff.1 h
    cases hq
    obtain ⟨condition, -, h⟩ := bind_eq_ok_iff.1 h
    cases h
    exact ⟨rfl, rfl, rfl⟩

theorem outline_close {draft : Draft} {frame : Frame} {markup : String}
    (h : p.draft.close p.path frame markup = .ok draft) :
    p.outline.close frame.name markup = Progress.outline { p with draft } := by
  have hpath : p.path = ["package"] ↔ p.outline.frames.map Prod.fst = ["package"] := by
    rw [Progress.path, List.reverse_eq_iff, Progress.outline, List.map_map]
    rfl
  have hdescription := description_of_close h
  simp only [hpath] at hdescription
  unfold Outline.close
  split
  case isTrue hcloses =>
    rw [if_pos hcloses] at hdescription
    rw [← hdescription]
    rfl
  case isFalse hcloses =>
    rw [if_neg hcloses] at hdescription
    simp only [Progress.outline, hdescription]

theorem outline_addText (p : Progress) (text : List Char) : (p.addText text).outline = p.outline := by
  obtain ⟨draft, frames, seen⟩ := p
  cases frames <;> rfl

/-- What an event does to what matters. -/
theorem outline_follow {event : Event} (h : p.follow source event = .ok p') :
    p.outline.follow? source event = some p'.outline := by
  cases event with
  | opening tag stop =>
    obtain ⟨⟨q, frame⟩, henter, h⟩ := bind_eq_ok_iff.1 h
    obtain ⟨houtline, hname, hstart⟩ := outline_enter henter
    cases h
    rw [Outline.follow?, houtline, ← hname, ← hstart]
    rfl
  | selfClosing tag stop =>
    obtain ⟨⟨q, frame⟩, henter, h⟩ := bind_eq_ok_iff.1 h
    obtain ⟨houtline, hname, -⟩ := outline_enter henter
    obtain ⟨draft, hclose, h⟩ := bind_eq_ok_iff.1 h
    cases h
    rw [Outline.follow?, houtline, ← hname, Option.map_some, outline_close hclose]
  | closing stop =>
    obtain ⟨draft, frames, seen⟩ := p
    cases frames with
    | nil => cases h
    | cons frame frames =>
      obtain ⟨closed, hclose, h⟩ := bind_eq_ok_iff.1 h
      cases h
      exact congrArg some (outline_close hclose)
  | text raw =>
    rw [Progress.follow] at h
    split at h
    · cases h
    · cases h
      rw [outline_addText]
      rfl
  | literal text =>
    cases h
    rw [outline_addText]
    rfl

theorem outline_follow_events {events : List Event} (h : events.foldlM (Progress.follow source) p = .ok p') :
    events.foldlM (Outline.follow? source) p.outline = some p'.outline := by
  induction events generalizing p with
  | nil =>
    cases h
    rfl
  | cons event events ih =>
    obtain ⟨q, hq, h⟩ := bind_eq_ok_iff.1 h
    rw [List.foldlM_cons, outline_follow hq]
    exact ih h

theorem description_of_finish {draft : Draft} {m : Manifest} (h : draft.finish = .ok m) :
    m.description = draft.description := by
  unfold Draft.finish at h
  split at h
  · cases h
  · split at h
    · cases h
    · cases h
      rfl

/-- An accepted document is read to its end, one package has been there, and no element is open. -/
theorem outline_of_ofEvents {document : Xml.Document} {m : Manifest} (h : ofEvents source document = .ok m) :
    document.complete = true ∧
      document.events.foldlM (Outline.follow? source) {} = some ⟨[], true, m.description⟩ := by
  obtain ⟨⟨draft, frames, seen⟩, hfollow, h⟩ := bind_eq_ok_iff.1 h
  obtain ⟨events, complete⟩ := document
  cases complete with
  | false => cases h
  | true =>
    cases seen with
    | false => cases h
    | true =>
      cases frames with
      | cons frame frames => cases h
      | nil =>
        rw [description_of_finish h]
        exact ⟨rfl, outline_follow_events hfollow⟩

/-! ### Nesting -/

namespace Outline

variable {o o' : Outline}

/-- The number of open elements does not depend on what they are. -/
theorem depth_follow {event : Event} (h : o.follow? source event = some o') :
    o'.frames.length = Event.depthAfter o.frames.length event := by
  have hclose : ∀ (o : Outline) (name markup : String), (o.close name markup).frames = o.frames := by
    intro o name markup
    unfold close
    split <;> rfl
  have henter : ∀ {q : Outline} {name : String}, o.enter? name = some q → q.frames = o.frames := by
    intro q name h
    unfold enter? at h
    split at h
    · split at h <;> cases h
      rfl
    · cases h
      rfl
  cases event with
  | opening tag stop =>
    obtain ⟨q, hq, rfl⟩ := Option.map_eq_some_iff.1 h
    rw [List.length_cons, henter hq]
    rfl
  | selfClosing tag stop =>
    obtain ⟨q, hq, rfl⟩ := Option.map_eq_some_iff.1 h
    rw [hclose, henter hq]
    rfl
  | closing stop =>
    obtain ⟨frames, seen, description⟩ := o
    cases frames with
    | nil => cases h
    | cons frame frames =>
      cases h
      rw [hclose]
      rfl
  | text raw =>
    cases h
    rfl
  | literal text =>
    cases h
    rfl

theorem depth_follow_events {events : List Event} (h : events.foldlM (follow? source) o = some o') :
    o'.frames.length = events.foldl Event.depthAfter o.frames.length := by
  induction events generalizing o with
  | nil =>
    cases h
    rfl
  | cons event events ih =>
    obtain ⟨q, hq, h⟩ := Option.bind_eq_some_iff.1 h
    rw [ih h, depth_follow hq]
    rfl

private theorem enter?_inside (hframes : o.frames ≠ []) (name : String) : o.enter? name = some o := if_neg hframes

mutual

/-- What is inside of a child of the package is passed over. -/
theorem follow_deep (source : List Char) (node : Node) (o : Outline) (hdeep : 2 ≤ o.frames.length) :
    node.events.foldlM (follow? source) o = some o := by
  have hframes : o.frames ≠ [] := List.ne_nil_of_length_pos (by omega)
  have hclose : ∀ name markup, o.close name markup = o := by
    intro name markup
    refine if_neg fun h => ?_
    have hlength := congrArg List.length h.1
    rw [List.length_map, List.length_singleton] at hlength
    omega
  match node with
  | .element tag start children stop =>
    have hchildren := follow_deep_all source children { o with frames := (tag.name, start) :: o.frames }
      (Nat.le_succ_of_le hdeep)
    rw [Node.events, List.foldlM_cons, follow?, enter?_inside hframes, Option.map_some, Option.bind_eq_bind,
      Option.bind_some, List.foldlM_append, hchildren]
    exact congrArg some (hclose _ _)
  | .void tag stop =>
    rw [Node.events, List.foldlM_cons, follow?, enter?_inside hframes, Option.map_some, hclose]
    rfl
  | .text raw => rfl
  | .literal text => rfl

theorem follow_deep_all (source : List Char) (nodes : List Node) (o : Outline) (hdeep : 2 ≤ o.frames.length) :
    (Xml.events nodes).foldlM (follow? source) o = some o := by
  match nodes with
  | [] => rfl
  | node :: nodes =>
    rw [Xml.events, List.foldlM_append, follow_deep source node o hdeep]
    exact follow_deep_all source nodes o hdeep

end

end Outline

/-! ### The places of the tags -/

/-- What is found between two places that are some bytes too early, when the markup of an element is between the right
ones: the end of the opening tag belongs to it, and nothing is found if that begins inside of a character. -/
def markupBehind (n : Nat) : Part → String
  | .element opening _ children _ =>
    ((Text.lastBytes? n opening).map fun last => String.ofList (Text.trim (last ++ Xml.written children))).getD ""
  | _ => ""

private theorem opening_description {after opening : List Char} {tag : Tag}
    (h : Xml.Spells after opening (.opening tag)) (hname : tag.name = "description") : 3 ≤ Text.byteLength opening := by
  cases h with
  | @opening body hbody hlast =>
    have hstart : body.takeWhile (!Xml.isTagBlank ·) = "description".toList := by
      rw [← hname]
      exact String.toList_ofList.symm
    have hlength : "description".toList.length ≤ body.length :=
      hstart ▸ (List.takeWhile_sublist _).length_le
    have hlong : 3 ≤ ('<' :: (body ++ ['>'])).length := by
      simp at hlength ⊢
      omega
    exact Nat.le_trans hlong (Text.length_le_byteLength _)

/-- A closing tag of a description is long, it has one byte for each character, and one opening bracket. -/
private theorem closing_description {after closing : List Char}
    (h : Xml.Spells after closing (.closing "description")) :
    ∃ b, closing = ['<', '/'] ++ b ∧ 3 ≤ b.length ∧ ∀ c ∈ b, c ≠ '<' ∧ c.utf8Size = 1 := by
  generalize hm : Xml.Markup.closing "description" = m at h
  cases h with
  | @closing body _ hbody hs =>
    rw [Xml.Markup.closing.injEq] at hm
    have hname : Xml.closingName body = "description".toList := by rw [hm, String.toList_ofList]
    have hblank : ∀ c, Xml.isTagBlank c = true → c ≠ '<' ∧ c.utf8Size = 1 := by
      intro c hc
      simp only [Xml.isTagBlank, Bool.or_eq_true, beq_iff_eq] at hc
      rcases hc with ((rfl | rfl) | rfl) | rfl <;> decide
    have hplain : ∀ c ∈ body, c ≠ '<' ∧ c.utf8Size = 1 := by
      intro c hc
      rcases Xml.mem_closingName hc with hc | hc
      · exact hblank c hc
      · have hletters : ("description".toList.all fun c => c ≠ '<' && c.utf8Size == 1) = true := by decide
        rw [hname] at hc
        simpa using List.all_eq_true.1 hletters c hc
    have hlong : 3 ≤ body.length := by
      have hlength := Xml.length_closingName_le body
      rw [hname] at hlength
      exact Nat.le_trans (by decide) hlength
    rcases hs with rfl | ⟨rfl, -⟩
    · refine ⟨body ++ ['>'], rfl, ?_, ?_⟩
      · rw [List.length_append]
        omega
      · intro c hc
        rcases List.mem_append.1 hc with hc | hc
        · exact hplain c hc
        · rw [List.mem_singleton.1 hc]
          decide
    · exact ⟨body, rfl, hlong, hplain⟩
  | _ => cases hm

/-- Some bytes less, and the closing tag still begins with the last mark of closing tags. -/
private theorem closing_shortened {after closing : List Char} {n : Nat}
    (h : Xml.Spells after closing (.closing "description")) (hn : n ≤ 3) :
    ∃ kept lost, closing = ['<', '/'] ++ kept ++ lost ∧ '<' ∉ kept ∧ Text.byteLength lost = n := by
  obtain ⟨b, rfl, hlong, hplain⟩ := closing_description h
  refine ⟨b.take (b.length - n), b.drop (b.length - n), ?_, ?_, ?_⟩
  · rw [List.append_assoc, List.take_append_drop]
  · exact fun hmem => (hplain _ (List.mem_of_mem_take hmem)).1 rfl
  · rw [Text.byteLength_eq_length fun c hc => (hplain c (List.mem_of_mem_drop hc)).2, List.length_drop]
    omega

/-- What is cut out of the source for a description, whose document begins behind a mark. -/
theorem innerMarkup_eq {mark pre post opening closing : List Char} {tag : Tag} {children : List Part}
    (hmark : Text.byteLength mark ≤ 3) (hpart : (Part.element opening tag children closing).WellSpelled post)
    (hname : tag.name = "description") :
    innerMarkup (mark ++ (pre ++ ((Part.element opening tag children closing).written ++ post)))
        (Text.byteLength pre + Text.byteLength opening)
        (Text.byteLength pre + Text.byteLength opening + Text.byteLength (Xml.written children) +
          Text.byteLength closing) =
      markupBehind (Text.byteLength mark) (.element opening tag children closing) := by
  obtain ⟨hopening, -, hclosing⟩ := hpart
  rw [hname] at hclosing
  generalize hn : Text.byteLength mark = n at hmark
  obtain ⟨kept, lost, rfl, hkept, hlost⟩ := closing_shortened hclosing hmark
  have hbytes : n ≤ Text.byteLength opening := Nat.le_trans hmark (opening_description hopening hname)
  have hslice := Text.sliceBytes?_shifted (mark ++ pre) opening (Xml.written children) (['<', '/'] ++ kept) lost post
    hbytes hlost
  have hstart : Text.byteLength (mark ++ pre ++ opening) - n = Text.byteLength pre + Text.byteLength opening := by
    rw [Text.byteLength_append, Text.byteLength_append, hn]
    omega
  have hstop : Text.byteLength (mark ++ pre ++ opening ++ Xml.written children ++ (['<', '/'] ++ kept) ++ lost) - n =
      Text.byteLength pre + Text.byteLength opening + Text.byteLength (Xml.written children) +
        Text.byteLength (['<', '/'] ++ kept ++ lost) := by
    simp only [Text.byteLength_append, hn]
    omega
  have hsource : mark ++ pre ++ opening ++ Xml.written children ++ (['<', '/'] ++ kept) ++ lost ++ post =
      mark ++ (pre ++ ((Part.element opening tag children (['<', '/'] ++ kept ++ lost)).written ++ post)) := by
    rw [Part.written]
    simp only [List.append_assoc]
  rw [hstart, hstop, hsource] at hslice
  rw [innerMarkup, hslice, markupBehind]
  cases Text.lastBytes? n opening with
  | none => rfl
  | some last =>
    have hsplit : Text.splitLast? ['<', '/'] (last ++ Xml.written children ++ ['<', '/'] ++ kept) =
        some (last ++ Xml.written children, kept) := by
      refine Text.splitLast?_eq_some ?_
      rw [List.mem_append, not_or]
      exact ⟨by decide, hkept⟩
    rw [List.append_assoc] at hsplit
    simp only [Option.map_some, Option.getD_some, hsplit]

/-! ### Following parts -/

/-- The last description among the children of a package. -/
def lastDescription? (children : List Part) : Option Part := (children.filter (Part.isNamed "description")).getLast?

/-- The description after a child of the package. -/
private def describedBy (n : Nat) (d : String) (part : Part) : String :=
  if part.isNamed "description" then markupBehind n part else d

private theorem foldl_describedBy (n : Nat) (parts : List Part) (d : String) :
    parts.foldl (describedBy n) d = ((lastDescription? parts).map (markupBehind n)).getD d := by
  induction parts generalizing d with
  | nil => rfl
  | cons part parts ih =>
    rw [List.foldl_cons, ih, describedBy, lastDescription?, lastDescription?]
    split
    case isTrue hnamed =>
      rw [List.filter_cons_of_pos hnamed, List.getLast?_cons]
      cases (parts.filter (Part.isNamed "description")).getLast? <;> rfl
    case isFalse hnamed => rw [List.filter_cons_of_neg hnamed]

section

variable {mark pre post : List Char} {o o' : Outline} {part : Part} {parts : List Part} {start : Nat} {d : String}

/-- In a package an element counts if it is a description. -/
private theorem close_inPackage (name markup : String) :
    Outline.close ⟨[("package", start)], true, d⟩ name markup =
      ⟨[("package", start)], true, if name = "description" then markup else d⟩ := by
  unfold Outline.close
  by_cases hname : name = "description"
  · rw [if_pos ⟨rfl, hname⟩, if_pos hname]
  · rw [if_neg fun h => hname h.2, if_neg hname]

theorem follow_child (hmark : Text.byteLength mark ≤ 3) (hpart : part.WellSpelled post)
    (hsource : source = mark ++ (pre ++ (part.written ++ post))) :
    (Xml.events (part.nodes (Text.byteLength pre))).foldlM (Outline.follow? source) ⟨[("package", start)], true, d⟩ =
      some ⟨[("package", start)], true, describedBy (Text.byteLength mark) d part⟩ := by
  cases part with
  | element opening tag children closing =>
    have hdeep := Outline.follow_deep_all source
      (Xml.nodes (Text.byteLength pre + Text.byteLength opening) children)
      ⟨[(tag.name, Text.byteLength pre + Text.byteLength opening), ("package", start)], true, d⟩ (Nat.le_refl _)
    have hmarkup : (if tag.name = "description" then innerMarkup source (Text.byteLength pre + Text.byteLength opening)
        (Text.byteLength pre + Text.byteLength opening + Text.byteLength (Xml.written children) +
          Text.byteLength closing) else d) =
        describedBy (Text.byteLength mark) d (.element opening tag children closing) := by
      have hnamed : (Part.element opening tag children closing).isNamed "description" =
          decide (tag.name = "description") := rfl
      rw [describedBy, hnamed]
      simp only [decide_eq_true_eq]
      split
      case isTrue hname => rw [hsource, innerMarkup_eq hmark hpart hname]
      case isFalse => rfl
    rw [Xml.events_element, List.foldlM_cons]
    show List.foldlM (Outline.follow? source) _ (_ ++ _) = _
    rw [List.foldlM_append, hdeep, ← hmarkup, ← close_inPackage]
    rfl
  | void spelling tag =>
    have hmarkup : (if tag.name = "description" then "" else d) =
        describedBy (Text.byteLength mark) d (.void spelling tag) := by
      have hnamed : (Part.void spelling tag).isNamed "description" = decide (tag.name = "description") := rfl
      rw [describedBy, hnamed]
      simp only [decide_eq_true_eq]
      rfl
    rw [← hmarkup, ← close_inPackage]
    rfl
  | text raw => rfl
  | literal spelling content => rfl
  | aside spelling => rfl

theorem follow_children (hmark : Text.byteLength mark ≤ 3) (hparts : Xml.WellSpelled parts post)
    (hsource : source = mark ++ (pre ++ (Xml.written parts ++ post))) :
    (Xml.events (Xml.nodes (Text.byteLength pre) parts)).foldlM (Outline.follow? source)
        ⟨[("package", start)], true, d⟩ =
      some ⟨[("package", start)], true, parts.foldl (describedBy (Text.byteLength mark)) d⟩ := by
  induction parts generalizing pre d with
  | nil => rfl
  | cons part parts ih =>
    have hfirst : source = mark ++ (pre ++ (part.written ++ (Xml.written parts ++ post))) := by
      rw [hsource, Xml.written, List.append_assoc]
    have hrest : source = mark ++ ((pre ++ part.written) ++ (Xml.written parts ++ post)) := by
      rw [hfirst, List.append_assoc]
    rw [Xml.nodes, Xml.events_append, List.foldlM_append, follow_child hmark hparts.1 hfirst,
      ← Text.byteLength_append]
    exact ih hparts.2 hrest

/-- The root has to be a package. -/
private theorem follow_root (hmark : Text.byteLength mark ≤ 3) (hpart : part.WellSpelled post)
    (hsource : source = mark ++ (pre ++ (part.written ++ post))) (helement : part.isElement = true)
    (h : (Xml.events (part.nodes (Text.byteLength pre))).foldlM (Outline.follow? source) {} = some o) :
    part.isNamed "package" = true ∧
      o = ⟨[], true, ((lastDescription? part.children).map (markupBehind (Text.byteLength mark))).getD ""⟩ := by
  have henter : ∀ {name : String} {q : Outline}, Outline.enter? {} name = some q →
      name = "package" ∧ q = ⟨[], true, ""⟩ := by
    intro name q h
    rw [Outline.enter?, if_pos rfl] at h
    split at h
    case isTrue hname =>
      cases h
      exact ⟨hname.2, rfl⟩
    case isFalse => cases h
  cases part with
  | element opening tag children closing =>
    rw [Xml.events_element] at h
    obtain ⟨q, hq, h⟩ := Option.bind_eq_some_iff.1 h
    obtain ⟨q, hopened, rfl⟩ := Option.map_eq_some_iff.1 hq
    obtain ⟨hname, rfl⟩ := henter hopened
    have hinside : source = mark ++ ((pre ++ opening) ++ (Xml.written children ++ (closing ++ post))) := by
      rw [hsource, Part.written]
      simp only [List.append_assoc]
    rw [List.foldlM_append, ← Text.byteLength_append, hname, follow_children hmark hpart.2.1 hinside,
      foldl_describedBy] at h
    cases h
    exact ⟨decide_eq_true hname, rfl⟩
  | void spelling tag =>
    obtain ⟨q, hq, h⟩ := Option.bind_eq_some_iff.1 h
    obtain ⟨q, hopened, rfl⟩ := Option.map_eq_some_iff.1 hq
    obtain ⟨hname, rfl⟩ := henter hopened
    cases h
    exact ⟨decide_eq_true hname, rfl⟩
  | text raw => cases helement
  | literal spelling content => cases helement
  | aside spelling => cases helement

/-- After the package no other element may come. -/
private theorem follow_behind {offset : Nat}
    (h : (Xml.events (Xml.nodes offset parts)).foldlM (Outline.follow? source) ⟨[], true, d⟩ = some o') :
    parts.filter Part.isElement = [] ∧ o' = ⟨[], true, d⟩ := by
  induction parts generalizing offset with
  | nil =>
    cases h
    exact ⟨rfl, rfl⟩
  | cons part parts ih =>
    rw [Xml.nodes, Xml.events_append, List.foldlM_append] at h
    cases part with
    | element opening tag children closing => cases h
    | void spelling tag => cases h
    | text raw => exact ih h
    | literal spelling content => exact ih h
    | aside spelling => exact ih h

/-- The only element of an accepted document is a package, and its children give the description. -/
theorem follow_spelled (hmark : Text.byteLength mark ≤ 3) (hparts : Xml.WellSpelled parts post)
    (hsource : source = mark ++ (pre ++ (Xml.written parts ++ post)))
    (h : (Xml.events (Xml.nodes (Text.byteLength pre) parts)).foldlM (Outline.follow? source) {} = some ⟨[], true, d⟩) :
    ∃ root, parts.filter Part.isElement = [root] ∧ root.isNamed "package" = true ∧
      d = ((lastDescription? root.children).map (markupBehind (Text.byteLength mark))).getD "" := by
  induction parts generalizing pre with
  | nil => cases h
  | cons part parts ih =>
    have hfirst : source = mark ++ (pre ++ (part.written ++ (Xml.written parts ++ post))) := by
      rw [hsource, Xml.written, List.append_assoc]
    have hrest : source = mark ++ ((pre ++ part.written) ++ (Xml.written parts ++ post)) := by
      rw [hfirst, List.append_assoc]
    rw [Xml.nodes, Xml.events_append, List.foldlM_append, ← Text.byteLength_append] at h
    by_cases helement : part.isElement = true
    · obtain ⟨o, hroot, h⟩ := Option.bind_eq_some_iff.1 h
      obtain ⟨hname, rfl⟩ := follow_root hmark hparts.1 hfirst helement hroot
      obtain ⟨hnone, hd⟩ := follow_behind h
      refine ⟨part, ?_, hname, (Outline.mk.inj hd).2.2⟩
      rw [List.filter_cons_of_pos helement]
      exact congrArg (part :: ·) hnone
    · rw [List.filter_cons_of_neg helement]
      cases part with
      | element opening tag children closing => exact absurd rfl helement
      | void spelling tag => exact absurd rfl helement
      | text raw => exact ih hparts.2 hrest h
      | literal spelling content => exact ih hparts.2 hrest h
      | aside spelling => exact ih hparts.2 hrest h

end

theorem markupBehind_zero : markupBehind 0 = fun part => String.ofList (Text.trim (Xml.written part.children)) := by
  funext part
  cases part with
  | element opening tag children closing => rw [markupBehind, Text.lastBytes?_zero]; rfl
  | void spelling tag => rfl
  | text raw => rfl
  | literal spelling content => rfl
  | aside spelling => rfl

/-- The byte order mark at the start of a text. -/
def markOf (source : List Char) : List Char := if source.head? = some '\uFEFF' then ['\uFEFF'] else []

theorem markOf_append (source : List Char) : markOf source ++ Xml.dropByteOrderMark source = source := by
  unfold Xml.dropByteOrderMark
  split
  · rfl
  · next hmark =>
    rw [markOf, if_neg]
    · rfl
    · intro h
      obtain ⟨rest, rfl⟩ := List.head?_eq_some_iff.1 h
      exact hmark rest rfl

/-- The description of an accepted manifest is the markup between the tags of the last description in the package.  The
places do not count a byte order mark; behind one the markup comes with the last three bytes of the opening tag. -/
theorem parse_description {source : String} {m : Manifest} (h : parse source = .ok m) :
    (∃ parts, Xml.Spelling parts (Xml.dropByteOrderMark source.toList)) ∧
      ∀ parts, Xml.Spelling parts (Xml.dropByteOrderMark source.toList) →
        ∃ root, parts.filter Part.isElement = [root] ∧ root.isNamed "package" = true ∧
          (source.toList.head? ≠ some '\uFEFF' →
            m.description = ((lastDescription? root.children).map fun e =>
              String.ofList (Text.trim (Xml.written e.children))).getD "") ∧
          (source.toList.head? = some '\uFEFF' →
            m.description = ((lastDescription? root.children).map (markupBehind 3)).getD "") := by
  obtain ⟨hcomplete, hfollow⟩ := outline_of_ofEvents h
  have hdepth := Outline.depth_follow_events hfollow
  refine ⟨Xml.exists_spelling hcomplete hdepth.symm, fun parts hparts => ?_⟩
  rw [Xml.read_eq_ok hparts] at hfollow
  obtain ⟨tail, -, hdocument, hspelled⟩ := hparts
  have hsource : source.toList = markOf source.toList ++ ([] ++ (Xml.written parts ++ tail)) := by
    rw [List.nil_append, ← hdocument, markOf_append]
  have hmark : Text.byteLength (markOf source.toList) ≤ 3 := by
    unfold markOf
    split <;> decide
  obtain ⟨root, hroot, hname, hdescription⟩ := follow_spelled hmark hspelled hsource hfollow
  refine ⟨root, hroot, hname, fun hplain => ?_, fun hmarked => ?_⟩
  · rw [hdescription, markOf, if_neg hplain, Text.byteLength_nil, markupBehind_zero]
  · rw [hdescription, markOf, if_pos hmarked]
    rfl

/-- A manifest that says no more than it has to. -/
def bare (description : String) : Manifest where
  format := 1
  name := "x"
  version := "1"
  description
  licenses := []
  buildTypes := []
  dependencies := []

theorem description_keeps_markup :
    let source := "<package><description/><name>x</name><version>1<!--é--></version><description>\n a<b>&amp;</b>" ++
      "<![CDATA[</]]><description>in</description><!--</--> </description></package>"
    let markup := "a<b>&amp;</b><![CDATA[</]]><description>in</description><!--</-->"
    ∃ parts root, Xml.Spelling parts (Xml.dropByteOrderMark source.toList) ∧ parts.filter Part.isElement = [root] ∧
      markup =
        ((lastDescription? root.children).map fun e => String.ofList (Text.trim (Xml.written e.children))).getD "" := by
  intro source markup
  have hparse : parse source = .ok (bare markup) := by decide +kernel
  obtain ⟨⟨parts, hparts⟩, hdescription⟩ := parse_description hparse
  obtain ⟨root, hroot, -, hplain, -⟩ := hdescription parts hparts
  exact ⟨parts, root, hparts, hroot, hplain (by decide +kernel)⟩

/-- An element with plain tags. -/
def plain (name : List Char) (children : List Part) : Part :=
  .element ('<' :: (name ++ ['>'])) (.read name) children ('<' :: '/' :: (name ++ ['>']))

private theorem enclosed_of_letters {name : List Char} (h : name.all Char.isAlpha = true) : Xml.Enclosed name := by
  induction name with
  | nil => exact .nil
  | cons c name ih =>
    rw [List.all_cons, Bool.and_eq_true] at h
    obtain ⟨hc, hname⟩ := h
    refine .plain ?_ ?_ ?_ (ih hname)
    all_goals
      rintro rfl
      exact absurd hc (by decide)

/-- A name in letters is spelled by plain tags. -/
theorem wellSpelled_plain {name after : List Char} {children : List Part} (hname : name.all Char.isAlpha = true)
    (hread : Xml.closingName name = name.takeWhile (!Xml.isTagBlank ·))
    (hchildren : Xml.WellSpelled children ('<' :: '/' :: (name ++ ['>']) ++ after)) :
    (plain name children).WellSpelled after := by
  have hnot : ∀ {c : Char}, c.isAlpha = false → c ∉ name := by
    intro c hc hmem
    rw [List.all_eq_true.1 hname c hmem] at hc
    cases hc
  have htag : Xml.IsTag name := ⟨enclosed_of_letters hname, fun h => hnot rfl (List.mem_of_mem_head? h),
    fun h => hnot rfl (List.mem_of_mem_head? h), fun h => hnot rfl (List.mem_of_mem_head? h)⟩
  have hclosing : Xml.Spells after ('<' :: '/' :: (name ++ ['>'])) (.closing (.ofList (Xml.closingName name))) :=
    .closing (hnot rfl) (.inl rfl)
  rw [hread] at hclosing
  exact ⟨.opening htag fun h => hnot rfl (List.mem_of_getLast? h), hchildren, hclosing⟩

/-- Behind a byte order mark the end of the opening tag gets into the description. -/
theorem description_with_tag :
    let source := "\uFEFF<package><name>x</name><version>1</version><description>Hi</description></package>"
    let description := plain "description".toList [.text "Hi".toList]
    let root := plain "package".toList
      [plain "name".toList [.text "x".toList], plain "version".toList [.text "1".toList], description]
    Xml.Spelling [root] (Xml.dropByteOrderMark source.toList) ∧ lastDescription? root.children = some description ∧
      parse source = .ok (bare "on>Hi") ∧
      (bare "on>Hi").description ≠ String.ofList (Text.trim (Xml.written description.children)) := by
  refine ⟨⟨[], .inl rfl, by decide +kernel, ?_, trivial⟩, ?_, by decide +kernel, by decide +kernel⟩
  · refine wellSpelled_plain (by decide) (by decide) ⟨?_, ?_, ?_, trivial⟩
    · refine wellSpelled_plain (by decide) (by decide) ⟨⟨by decide, by decide, by decide⟩, trivial⟩
    · refine wellSpelled_plain (by decide) (by decide) ⟨⟨by decide, by decide, by decide⟩, trivial⟩
    · refine wellSpelled_plain (by decide) (by decide) ⟨⟨by decide, by decide, by decide⟩, trivial⟩
  · rfl

end RosRecipes.Manifest
