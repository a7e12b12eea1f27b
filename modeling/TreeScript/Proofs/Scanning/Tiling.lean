import TreeScript.Proofs.Scanning.Concatenation
import TreeScript.Proofs.Scanning.Reading

/-!
# The bytes of a source are tiled

A source is read stretch by stretch, from its first byte to its last one.  Reading goes wrong
nowhere and comes to an end, and what it finds are the items of the source.

* `Stretch` — the bytes that are read in one go, and the item they stand for
* `Cursor.readAll` — reads all of a source, with fuel
* `Tiles` — stretches that follow one another without a gap and without an overlap
* `Stretch.Faithful` — the item of a stretch has the text of the stretch and its last line
* `scan_lossless` — every source is read, tiled by faithful stretches
-/

namespace TreeScript

/-! ## Reading stretches -/

/-- The bytes that are read in one go, and the item that they stand for, if they are not
skipped. -/
structure Stretch where
  start : Nat
  stop : Nat
  item? : Option (Except Diagnostic Token)

namespace Cursor

/-- The cursor in front of a source. -/
def first : Cursor :=
  { position := 0, line := 1 }

/-- Reads one stretch.  A token takes its lexeme from the source. -/
def readStretch (lexicon : Lexicon) (source : String) (cursor : Cursor) :
    Except Misread (Stretch × Cursor) := do
  let (cls, next) ← read lexicon source cursor
  let stretch := fun item? => { start := cursor.position, stop := next.position, item? }
  match cls with
  | .blank => return (stretch none, next)
  | .fault fault => return (stretch (some (.error (.lex fault next.line))), next)
  | .token kind literal =>
    let lexeme ← slice source cursor.position next.position
    return (stretch (some (.ok { kind, lexeme, literal, line := next.line })), next)

/-- Reads a source from a cursor on: the stretches, and the items.  Only at the very end of
the source is there an end mark. -/
def readAll (lexicon : Lexicon) (source : String) :
    Nat → Cursor → Except Misread (List Stretch × List (Except Diagnostic Token))
  | 0, _ => .error .outOfFuel
  | fuel + 1, cursor =>
    if cursor.position = source.utf8ByteSize then .ok ([], [.ok (Token.finish cursor.line)])
    else if cursor.position < source.utf8ByteSize then do
      let (stretch, next) ← readStretch lexicon source cursor
      let (found, more) ← readAll lexicon source fuel next
      return (stretch :: found, stretch.item?.toList ++ more)
    else .ok ([], [])

end Cursor

/-! ## Tilings -/

/-- Stretches follow one another, none of them empty, from a position up to another one. -/
def Tiles (start : Nat) : List Stretch → Nat → Prop
  | [], stop => start = stop
  | stretch :: rest, stop =>
    stretch.start = start ∧ stretch.start < stretch.stop ∧ Tiles stretch.stop rest stop

/-- A stretch reaches over a text of the source.  A token has that text for its lexeme, and a
token or a fault stands on the line on which the text ends. -/
def Stretch.Faithful (source : String) (stretch : Stretch) : Prop :=
  ∃ before text after : String, source = before ++ text ++ after ∧
    stretch.start = before.utf8ByteSize ∧ stretch.stop = (before ++ text).utf8ByteSize ∧
      match stretch.item? with
      | none => True
      | some (.ok t) => t.lexeme = text ∧ t.line = 1 + (before ++ text).toList.count '\n'
      | some (.error d) => ∃ fault, d = .lex fault (1 + (before ++ text).toList.count '\n')

/-! ## The stretches of segments -/

/-- The stretches of segments one after the other. -/
def stretches (cursor : Cursor) : List Segment → List Stretch
  | [] => []
  | s :: rest =>
    let next := cursor.behind s.text
    { start := cursor.position, stop := next.position, item? := s.item? next.line } ::
      stretches next rest

section

variable {source : String} {cursor : Cursor} {before rest text : List Char}

theorem Cursor.readStretch_eq {lexicon : Lexicon} {c : Char} {cls : SegmentClass} {extent : Nat}
    (h : Stands source cursor.position before (c :: rest))
    (hc : Segment.cut lexicon c rest = (cls, extent)) :
    let s : Segment := { text := c :: rest.take extent, cls }
    let next := cursor.behind s.text
    readStretch lexicon source cursor = .ok
      ({ start := cursor.position, stop := next.position, item? := s.item? next.line }, next) := by
  have hrest : c :: rest = (c :: rest.take extent) ++ rest.drop extent := by
    rw [List.cons_append, List.take_append_drop]
  have hslice : slice source cursor.position (cursor.behind (c :: rest.take extent)).position =
      .ok (String.ofList (c :: rest.take extent)) := Stands.slice _ _ (hrest ▸ h)
  rw [readStretch, read_eq h hc]
  simp only [bind, Except.bind]
  cases cls with
  | blank => rfl
  | fault fault => rfl
  | token kind literal =>
    simp only [hslice]
    rfl

theorem Cursor.lt_behind (cursor : Cursor) (c : Char) (rest : List Char) :
    cursor.position < (cursor.behind (c :: rest)).position := by
  have hlead := List.length_pos_iff.2 (String.utf8EncodeChar_ne_nil (c := c))
  simp only [behind, octets_cons, List.length_append]
  omega

/-- All of a source is read, with fuel for every byte and for its end. -/
theorem Cursor.readAll_eq (lexicon : Lexicon) {fuel : Nat}
    (h : Stands source cursor.position before text) (hfuel : (octets text).length < fuel) :
    readAll lexicon source fuel cursor =
      .ok (stretches cursor (segments lexicon text), items cursor.line (segments lexicon text)) := by
  induction text using segments.induct lexicon generalizing fuel cursor before with
  | case1 =>
    obtain ⟨fuel, rfl⟩ := Nat.exists_eq_succ_of_ne_zero (Nat.ne_of_gt hfuel)
    have hend : cursor.position = source.utf8ByteSize := h.utf8ByteSize.symm
    rw [readAll, if_pos hend, segments]
    rfl
  | case2 c rest cls extent hcut ih =>
    obtain ⟨fuel, rfl⟩ := Nat.exists_eq_succ_of_ne_zero (Nat.ne_zero_of_lt hfuel)
    have hrest : c :: rest = (c :: rest.take extent) ++ rest.drop extent := by
      rw [List.cons_append, List.take_append_drop]
    have hbefore : cursor.position < source.utf8ByteSize :=
      Nat.not_le.1 (h.atEnd_iff.not.2 (List.cons_ne_nil _ _))
    have hnext := stands_behind _ (hrest ▸ h)
    have hfuel' : (octets (rest.drop extent)).length < fuel := by
      have hlt := cursor.lt_behind c (rest.take extent)
      rw [hrest, octets_append, List.length_append] at hfuel
      simp only [behind] at hlt
      omega
    rw [readAll, if_neg hbefore.ne, if_pos hbefore, readStretch_eq h hcut, segments, hcut]
    simp only [bind, Except.bind, ih hnext hfuel']
    rfl

theorem tiles_stretches (lexicon : Lexicon) (h : Stands source cursor.position before text) :
    Tiles cursor.position (stretches cursor (segments lexicon text)) source.utf8ByteSize := by
  induction text using segments.induct lexicon generalizing cursor before with
  | case1 =>
    rw [segments]
    exact h.utf8ByteSize.symm
  | case2 c rest cls extent hcut ih =>
    rw [segments, hcut]
    rw [← List.take_append_drop extent rest, ← List.cons_append] at h
    exact ⟨rfl, cursor.lt_behind c _, ih (Cursor.stands_behind _ h)⟩

theorem faithful_stretches (lexicon : Lexicon) (h : Stands source cursor.position before text)
    (hline : cursor.line = 1 + before.count '\n') :
    ∀ stretch ∈ stretches cursor (segments lexicon text), stretch.Faithful source := by
  induction text using segments.induct lexicon generalizing cursor before with
  | case1 =>
    rw [segments]
    exact fun _ hmem => absurd hmem List.not_mem_nil
  | case2 c rest cls extent hcut ih =>
    rw [← List.take_append_drop extent rest, ← List.cons_append] at h
    have hnext := Cursor.stands_behind _ h
    have hline' : (cursor.behind (c :: rest.take extent)).line =
        1 + (before ++ c :: rest.take extent).count '\n' := by
      rw [Cursor.behind, hline, List.count_append, Nat.add_assoc]
    rw [segments, hcut, stretches, List.forall_mem_cons]
    refine ⟨?_, ih hnext hline'⟩
    refine ⟨String.ofList before, String.ofList (c :: rest.take extent),
      String.ofList (rest.drop extent), ?_, ?_, ?_, ?_⟩
    · rw [h.source_eq, ← String.ofList_append, ← String.ofList_append, List.append_assoc]
    · rw [utf8ByteSize_ofList]
      exact h.position_eq
    · rw [← String.ofList_append, utf8ByteSize_ofList]
      exact hnext.position_eq
    · rw [← String.ofList_append, String.toList_ofList, ← hline']
      cases cls with
      | blank => trivial
      | fault fault => exact ⟨fault, rfl⟩
      | token kind literal => exact ⟨rfl, rfl⟩

/-- The items of segments are those of their stretches, and the end mark. -/
theorem items_stretches (cursor : Cursor) (found : List Segment) :
    items cursor.line found = (stretches cursor found).filterMap Stretch.item? ++
      [.ok (Token.finish (cursor.behind (found.flatMap Segment.text)).line)] := by
  induction found generalizing cursor with
  | nil => rfl
  | cons s rest ih =>
    rw [items, stretches, List.flatMap_cons, Cursor.behind_append, List.filterMap_cons]
    refine (congrArg (_ ++ ·) (ih (cursor.behind s.text))).trans ?_
    rw [← List.append_assoc]
    refine congrArg (· ++ _) ?_
    change (s.item? (cursor.behind s.text).line).toList ++ _ = _
    cases s.item? (cursor.behind s.text).line <;> rfl

end

/-! ## Every source is read -/

/-- Every source is read to its end, with whatever fuel there is beyond one for each byte and
one for the end: no byte is taken beyond the end, and no text is sliced inside a character.
What is read are the stretches of its segments.  They tile the source, each token and each
fault stands for one of them, and what they stand for, with the end mark after it, are the
items of the source. -/
theorem scan_lossless (lexicon : Lexicon) (source : String) (extra : Nat) :
    ∃ found, found = stretches .first (segments lexicon source.toList) ∧
      Cursor.readAll lexicon source (source.utf8ByteSize + 1 + extra) .first =
        .ok (found, scan lexicon source) ∧
      Tiles 0 found source.utf8ByteSize ∧ (∀ stretch ∈ found, stretch.Faithful source) ∧
      scan lexicon source = found.filterMap Stretch.item? ++
        [.ok (Token.finish (1 + source.toList.count '\n'))] := by
  have hstart : Stands source Cursor.first.position [] source.toList := .start source
  have hfuel : (octets source.toList).length < source.utf8ByteSize + 1 + extra := by
    have hsize := hstart.utf8ByteSize
    simp only [Cursor.first] at hsize
    omega
  refine ⟨_, rfl, Cursor.readAll_eq lexicon hstart hfuel, tiles_stretches lexicon hstart,
    faithful_stretches lexicon hstart rfl, ?_⟩
  rw [scan]
  refine (items_stretches .first _).trans ?_
  rw [flatMap_segments]
  rfl

end TreeScript
