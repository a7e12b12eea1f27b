import TreeScript.Proofs.Scoping.Lexical

/-!
# What the resolving walk lists

* `Piece.Lists` — values that are listed in the order in which their places are visited
* `Piece.fits_after` — the walk keeps the scopes in step with the places of the tree
* `Piece.lists_findings` — the walk over a piece lists what is marked in it
* `Piece.lists_distances` — the distances of a program are those of lexical scoping
* `Piece.lists_diagnostics` — its diagnostics are those of the places at fault
-/

namespace TreeScript

theorem findIdx?_eq_of_forall₂ {α β : Type} {R : α → β → Prop} {test : α → Bool}
    {test' : β → Bool} {as : List α} {bs : List β} (h : List.Forall₂ R as bs)
    (heq : ∀ a ∈ as, ∀ b, R a b → test a = test' b) : as.findIdx? test = bs.findIdx? test' := by
  induction h with
  | nil => rfl
  | @cons a b as bs hab _ ih =>
    rw [List.findIdx?_cons, List.findIdx?_cons, heq a List.mem_cons_self b hab,
      ih fun a ha => heq a (List.mem_cons_of_mem _ ha)]

namespace Piece

/-! ## Lists of marks -/

/-- The values are the marks of the tree, each once, in the order of the visits. -/
def Lists {α : Type} (root : Piece) (mark : Place → α → Prop) (values : List α) : Prop :=
  ∃ entries : List (Place × α),
    entries.map Prod.snd = values ∧
      entries.Pairwise (fun a b => root.Precedes a.1 b.1) ∧
      ∀ p x, (p, x) ∈ entries ↔ mark p x

namespace Lists

variable {α : Type} {root : Piece} {mark mark' : Place → α → Prop} {values values' : List α}

theorem nil (h : ∀ p x, ¬ mark p x) : root.Lists mark [] :=
  ⟨[], rfl, .nil, fun p x => iff_of_false List.not_mem_nil (h p x)⟩

theorem congr (h : root.Lists mark values) (hm : ∀ p x, mark' p x ↔ mark p x) :
    root.Lists mark' values := by
  obtain ⟨entries, hv, hp, he⟩ := h
  exact ⟨entries, hv, hp, fun p x => (he p x).trans (hm p x).symm⟩

theorem append (h : root.Lists mark values) (h' : root.Lists mark' values')
    (hlt : ∀ p q x y, mark p x → mark' q y → root.Precedes p q) :
    root.Lists (fun p x => mark p x ∨ mark' p x) (values ++ values') := by
  obtain ⟨entries, hv, hp, he⟩ := h
  obtain ⟨entries', hv', hp', he'⟩ := h'
  refine ⟨entries ++ entries', ?_, ?_, fun p x => ?_⟩
  · rw [List.map_append, hv, hv']
  · exact List.pairwise_append.2
      ⟨hp, hp', fun a ha b hb => hlt _ _ _ _ ((he _ _).1 ha) ((he' _ _).1 hb)⟩
  · rw [List.mem_append, he, he']

/-- At most one mark at one place. -/
theorem single (p : Place) (hlen : values.length ≤ 1) (h : ∀ x, x ∈ values ↔ mark p x) :
    root.Lists (fun d x => d = p ∧ mark d x) values := by
  refine ⟨values.map (Prod.mk p), ?_, ?_, fun d x => ?_⟩
  · rw [List.map_map]
    exact List.map_id values
  · match values with
    | [] => exact .nil
    | [_] => exact List.pairwise_singleton _ _
  · rw [List.mem_map]
    constructor
    · rintro ⟨y, hy, heq⟩
      cases heq
      exact ⟨rfl, (h x).1 hy⟩
    · rintro ⟨rfl, hx⟩
      exact ⟨x, (h x).2 hx, rfl⟩

end Lists

/-! ## Induction over the tree -/

theorem sizeOf_pieces {s : Stmt} {c : Piece} (h : c ∈ s.pieces) :
    sizeOf c < 1 + (1 + sizeOf s) := by
  fun_cases Stmt.pieces s <;>
    simp only [Stmt.pieces, List.mem_cons, List.mem_map, List.not_mem_nil, or_false] at h
  case case8 body =>
    obtain ⟨s, hs, rfl⟩ := h
    have := List.sizeOf_lt_of_mem hs
    rw [node.sizeOf_spec, Node.statement.sizeOf_spec, Stmt.block.sizeOf_spec]
    omega
  case case13 name methods =>
    rcases h with rfl | ⟨method, hm, rfl⟩
    · rw [receiver.sizeOf_spec, Stmt.classDecl.sizeOf_spec]
      omega
    · have := List.sizeOf_lt_of_mem hm
      rw [node.sizeOf_spec, Node.function.sizeOf_spec, Stmt.classDecl.sizeOf_spec]
      omega
  all_goals rcases h with rfl | rfl | rfl <;> simp <;> omega

theorem sizeOf_child {piece c : Piece} (h : c ∈ piece.children) : sizeOf c < sizeOf piece := by
  match piece with
  | .node (.expression e) =>
    obtain ⟨part, hpart, rfl⟩ := List.mem_map.1 h
    have := Visit.sizeOf_parts hpart
    rw [node.sizeOf_spec, node.sizeOf_spec, Node.expression.sizeOf_spec]
    omega
  | .node (.statement s) =>
    rw [node.sizeOf_spec, Node.statement.sizeOf_spec]
    exact sizeOf_pieces h
  | .node (.statements ss) =>
    obtain ⟨s, hs, rfl⟩ := List.mem_map.1 h
    have := List.sizeOf_lt_of_mem hs
    rw [node.sizeOf_spec, node.sizeOf_spec, Node.statement.sizeOf_spec,
      Node.statements.sizeOf_spec]
    omega
  | .node (.function ⟨_, parameters, body⟩) =>
    rw [node.sizeOf_spec, Node.function.sizeOf_spec, FunctionDecl.mk.sizeOf_spec]
    obtain h | h := List.mem_append.1 h
    · obtain ⟨p, hp, rfl⟩ := List.mem_map.1 h
      have : sizeOf p < sizeOf parameters := List.sizeOf_lt_of_mem hp
      rw [parameter.sizeOf_spec]
      omega
    · obtain ⟨s, hs, rfl⟩ := List.mem_map.1 h
      have : sizeOf s < sizeOf body := List.sizeOf_lt_of_mem hs
      rw [node.sizeOf_spec, Node.statement.sizeOf_spec]
      omega

/-- What holds of a piece if it holds of all that stands in it holds of every piece. -/
theorem induct {motive : Piece → Prop}
    (step : ∀ piece : Piece, (∀ c ∈ piece.children, motive c) → motive piece) (piece : Piece) :
    motive piece :=
  step piece fun c _ => induct step c
termination_by sizeOf piece
decreasing_by exact sizeOf_child ‹_›

variable {root piece : Piece} {p q : Place} {j : Nat} {spot : Spot}

/-- What stands behind the first branches of a piece. -/
theorem at?_of_children {front rest : List Piece} {c : Piece} (hp : root.at? p = some piece)
    (hchildren : piece.children = front ++ c :: rest) :
    root.at? (p ++ [front.length]) = some c := by
  rw [at?_concat, hp, Option.bind_some, hchildren, List.getElem?_append_right le_rfl,
    Nat.sub_self, List.getElem?_cons_zero]

/-- The spot fits behind pieces that stand side by side if it fits behind each of them. -/
theorem fits_foldl (hp : root.at? p = some piece) (front rest : List Piece)
    (hchildren : piece.children = front ++ rest)
    (hstep : ∀ c ∈ rest, ∀ q j spot, root.at? (q ++ [j]) = some c → root.Fits (q ++ [j]) spot →
      root.Fits (q ++ [j + 1]) (c.after spot))
    (h : root.Fits (p ++ [front.length]) spot) :
    root.Fits (p ++ [piece.children.length]) (rest.foldl after spot) := by
  induction rest generalizing front spot with
  | nil =>
    rw [hchildren, List.append_nil]
    exact h
  | cons c rest ih =>
    have hc := at?_of_children hp hchildren
    have hnext := hstep c List.mem_cons_self p front.length spot hc h
    refine ih (front ++ [c]) (by simp [hchildren])
      (fun c hc => hstep c (List.mem_cons_of_mem _ hc)) ?_
    rwa [List.length_append, List.length_singleton]

/-- The walk over a piece keeps the scopes in step with the places of the tree. -/
theorem fits_after (hp : root.at? (q ++ [j]) = some piece) (h : root.Fits (q ++ [j]) spot) :
    root.Fits (q ++ [j + 1]) (piece.after spot) := by
  induction piece using induct generalizing q j spot with
  | step piece ih =>
    rw [after_eq]
    exact h.left hp (fits_foldl hp [] piece.children rfl (fun c hc q j spot => ih c hc)
      (h.entered hp))

/-! ## The walk lists the marks -/

section Marks

variable {α : Type} {f : Findings → List α} {mark : Place → α → Prop}

/-- Pieces that stand side by side list what is marked in them if each of them does. -/
theorem lists_findingsAll (hf : Findings.Additive f)
    (hvalid : ∀ p x, mark p x → (root.at? p).isSome)
    (hp : root.at? p = some piece) (front rest : List Piece)
    (hchildren : piece.children = front ++ rest)
    (hstep : ∀ c ∈ rest, ∀ p spot, root.at? p = some c → root.Fits p spot →
      root.Lists (fun d x => p <+: d ∧ mark d x) (f (c.findings spot)))
    (h : root.Fits (p ++ [front.length]) spot) :
    root.Lists (fun d x => (∃ i, front.length ≤ i ∧ p ++ [i] <+: d) ∧ mark d x)
      (f (findingsAll spot rest)) := by
  induction rest generalizing front spot with
  | nil =>
    rw [findingsAll, hf.none]
    -- what is marked stands in the tree, and the piece has no further branches
    refine .nil ?_
    rintro d x ⟨⟨i, hi, hd⟩, hx⟩
    have hlt := lt_of_branch hp (hvalid d x hx) hd
    rw [hchildren, List.append_nil] at hlt
    exact Nat.not_lt_of_le hi hlt
  | cons c rest ih =>
    have hc := at?_of_children hp hchildren
    have hrest := ih (front ++ [c]) (by simp [hchildren])
      (fun c hc => hstep c (List.mem_cons_of_mem _ hc))
      (by simpa using fits_after hc h)
    rw [findingsAll, hf.append]
    refine ((hstep c List.mem_cons_self _ spot hc h).append hrest ?_).congr fun d x => ?_
    · rintro d e x y ⟨hd, -⟩ ⟨⟨i, hi, he⟩, -⟩
      exact precedes_of_branches (by simpa [Nat.succ_le_iff] using hi) hd he
    · rw [← or_and_right]
      refine and_congr_left' ?_
      constructor
      · rintro ⟨i, hi, hd⟩
        obtain rfl | hi := hi.eq_or_lt
        · exact .inl hd
        · exact .inr ⟨i, by simpa [Nat.succ_le_iff] using hi, hd⟩
      · rintro (hd | ⟨i, hi, hd⟩)
        · exact ⟨_, le_rfl, hd⟩
        · exact ⟨i, by simp at hi; omega, hd⟩

/-- The walk over a piece lists what is marked in it, if each piece by itself lists what is
marked at its place. -/
theorem lists_findings (hf : Findings.Additive f)
    (hvalid : ∀ p x, mark p x → (root.at? p).isSome)
    (hown : ∀ p piece spot, root.at? p = some piece → root.Fits p spot →
      root.Lists (fun d x => d = p ∧ mark d x) (f (piece.own spot)))
    (hp : root.at? p = some piece) (h : root.Fits p spot) :
    root.Lists (fun d x => p <+: d ∧ mark d x) (f (piece.findings spot)) := by
  induction piece using induct generalizing p spot with
  | step piece ih =>
    have hbelow := lists_findingsAll hf hvalid hp [] piece.children rfl
      (fun c hc p spot => ih c hc) (h.entered hp)
    have hat := hown p piece spot hp h
    have hsplit : ∀ d x, p <+: d ∧ mark d x ↔
        d = p ∧ mark d x ∨ (∃ i, ([] : List Piece).length ≤ i ∧ p ++ [i] <+: d) ∧ mark d x := by
      intro d x
      rw [← or_and_right]
      refine and_congr_left' ⟨fun hd => ?_, ?_⟩
      · by_cases hpd : p = d
        · exact .inl hpd.symm
        · obtain ⟨i, hi⟩ := Place.Above.exists_branch ⟨hd, hpd⟩
          exact .inr ⟨i, Nat.zero_le i, hi⟩
      · rintro (rfl | ⟨i, -, hi⟩)
        · exact List.prefix_rfl
        · exact (List.prefix_append _ _).trans hi
    rw [findings_eq hf]
    -- an assignment is noted behind what stands in it, everything else before it
    split
    · rename_i ha
      refine (hbelow.append hat ?_).congr fun d x => (hsplit d x).trans or_comm
      rintro d e x y ⟨⟨i, -, hd⟩, -⟩ ⟨rfl, -⟩
      exact precedes_assignment (Place.above_of_branch hd) (by rw [hp]; exact ha)
    · rename_i ha
      refine (hat.append hbelow ?_).congr hsplit
      rintro d e x y ⟨rfl, -⟩ ⟨⟨i, -, he⟩, -⟩
      exact precedes_of_above (Place.above_of_branch he) (by rw [hp]; simpa using ha)

end Marks

/-! ## References -/

/-- The distance of a name counts to the innermost construct in which it is visible. -/
theorem Fits.distance_iff (h : root.Fits p spot) {name : String} {n : Nat} :
    StaticScope.distance? spot.scopes name = some n ↔ root.Distance p name n := by
  classical
  rw [← findIdx?_visible, StaticScope.distance?,
    findIdx?_eq_of_forall₂ h.scopes fun c hc names hn => ?_]
  rw [Bool.eq_iff_iff, decide_eq_true_eq, Std.TreeMap.contains_iff_mem, hn.declared name, Visible,
    and_iff_right hc]

/-- A name is uninitialized in the innermost scope just where it is read in the initializer of
its own variable. -/
theorem Fits.inOwnInitializer_iff (h : root.Fits p spot) {name : String} :
    StaticScope.inOwnInitializer spot.scopes name = true ↔
      ∃ s c : Place, s.Above p ∧ root.Initializes s name ∧
        (root.enclosing s).head? = some c ∧ (root.enclosing p).head? = some c := by
  obtain ⟨around, scopes⟩ := spot
  have hscopes : List.Forall₂ (root.Shows p) (root.enclosing p) scopes := h.scopes
  generalize root.enclosing p = cs at hscopes
  cases hscopes with
  | nil => simp [StaticScope.inOwnInitializer]
  | @cons c names cs scopes hc _ =>
    rw [StaticScope.inOwnInitializer, beq_iff_eq, hc.uninitialized name]
    constructor
    · rintro ⟨s, hs, hi, hsc⟩
      exact ⟨s, c, hs, hi, hsc, rfl⟩
    · rintro ⟨s, c', hs, hi, hsc, heq⟩
      cases heq
      exact ⟨s, hs, hi, hsc⟩

/-- A piece by itself notes at most one distance. -/
theorem length_own_distances (piece : Piece) (spot : Spot) :
    (piece.own spot).distances.length ≤ 1 := by
  match piece with
  | .node n =>
    have h := (Visit.own_distances_subperm ⟨spot, n⟩).length_le
    rw [List.length_map] at h
    refine h.trans ?_
    cases Option.map Prod.fst (Visit.reference? ⟨spot, n⟩) <;> simp
  | .parameter _ | .receiver => exact Nat.zero_le 1

/-- The distances that a piece notes by itself. -/
theorem lists_own_distances (hp : root.at? p = some piece) (h : root.Fits p spot) :
    root.Lists
      (fun d x => d = p ∧ ∃ name, root.Refers d x.1 name ∧ root.Distance d name x.2)
      (piece.own spot).distances := by
  refine .single p (length_own_distances piece spot) ?_
  rintro ⟨id, n⟩
  constructor
  · intro hx
    unfold own at hx
    split at hx
    · unfold Visit.own at hx
      split at hx
      · rename_i heq
        cases heq
        rw [Findings.additive_distances.append, Visit.distances_faultIf, List.nil_append,
          Visit.mem_distances_ofReference, h.distance_iff] at hx
        obtain ⟨rfl, hd⟩ := hx
        exact ⟨_, .read hp, hd⟩
      · rename_i heq
        cases heq
        rw [Visit.mem_distances_ofReference, h.distance_iff] at hx
        obtain ⟨rfl, hd⟩ := hx
        exact ⟨_, .write hp, hd⟩
      · rename_i heq
        cases heq
        split at hx
        · rename_i hin
          rw [Visit.mem_distances_ofReference, h.distance_iff] at hx
          obtain ⟨rfl, hd⟩ := hx
          exact ⟨_, .self hp (h.inClass.1 hin), hd⟩
        · cases hx
      · rw [Visit.distances_faultIf] at hx
        cases hx
      · cases hx
    · cases hx
    · cases hx
  · rintro ⟨name, href, hd⟩
    cases href with
    | read hv =>
      obtain rfl := Option.some.inj (hp.symm.trans hv)
      rw [own, Visit.own, Findings.additive_distances.append, Visit.distances_faultIf,
        List.nil_append, Visit.mem_distances_ofReference, h.distance_iff]
      exact ⟨rfl, hd⟩
    | write hv =>
      obtain rfl := Option.some.inj (hp.symm.trans hv)
      rw [own, Visit.own, Visit.mem_distances_ofReference, h.distance_iff]
      exact ⟨rfl, hd⟩
    | self hv hin =>
      obtain rfl := Option.some.inj (hp.symm.trans hv)
      rw [own, Visit.own, if_pos (h.inClass.2 hin), Visit.mem_distances_ofReference,
        h.distance_iff]
      exact ⟨rfl, hd⟩

/-! ## Faults -/

theorem diagnostics_ofReference (scopes : List StaticScope) (id : ReferenceId) (name : Token) :
    (Findings.ofReference scopes id name).diagnostics = [] := by
  unfold Findings.ofReference
  split <;> rfl

theorem mem_diagnostics_faultIf {b : Bool} {token : Token} {cause : ScopeFault}
    {x : Diagnostic} :
    x ∈ (Findings.faultIf b token cause).diagnostics ↔
      b = true ∧ x = Diagnostic.scopeAt token cause := by
  cases b <;> simp [Findings.faultIf, Findings.fault, Findings.none]

theorem length_diagnostics_faultIf (b : Bool) (token : Token) (cause : ScopeFault) :
    (Findings.faultIf b token cause).diagnostics.length ≤ 1 := by
  cases b <;> simp [Findings.faultIf, Findings.fault, Findings.none]

/-- A piece by itself has at most one fault. -/
theorem length_own_diagnostics (piece : Piece) (spot : Spot) :
    (piece.own spot).diagnostics.length ≤ 1 := by
  unfold own
  split
  · unfold Visit.own
    split
    · rw [Findings.additive_diagnostics.append, diagnostics_ofReference, List.append_nil]
      exact length_diagnostics_faultIf _ _ _
    · rw [diagnostics_ofReference]
      exact Nat.zero_le 1
    · split
      · rw [diagnostics_ofReference]
        exact Nat.zero_le 1
      · exact le_rfl
    · exact length_diagnostics_faultIf _ _ _
    · exact Nat.zero_le 1
  · exact Nat.zero_le 1
  · exact Nat.zero_le 1

/-- The faults that a piece has by itself. -/
theorem lists_own_diagnostics (hp : root.at? p = some piece) (h : root.Fits p spot) :
    root.Lists (fun d x => d = p ∧ root.Faulty d x) (piece.own spot).diagnostics := by
  refine .single p (length_own_diagnostics piece spot) fun x => ?_
  constructor
  · intro hx
    unfold own at hx
    split at hx
    · unfold Visit.own at hx
      split at hx
      · rename_i heq
        cases heq
        rw [Findings.additive_diagnostics.append, diagnostics_ofReference, List.append_nil,
          mem_diagnostics_faultIf, h.inOwnInitializer_iff] at hx
        obtain ⟨⟨s, c, hs, hi, hsc, hpc⟩, rfl⟩ := hx
        exact .ownInitializer hp hs hi hsc hpc
      · rw [diagnostics_ofReference] at hx
        cases hx
      · rename_i heq
        cases heq
        split at hx
        · rw [diagnostics_ofReference] at hx
          cases hx
        · rename_i hin
          obtain rfl := List.mem_singleton.1 hx
          exact .thisOutsideClass hp fun hc => hin (h.inClass.2 hc)
      · rename_i heq
        cases heq
        rw [mem_diagnostics_faultIf, Bool.not_eq_true', ← Bool.not_eq_true, h.inFunction] at hx
        obtain ⟨hin, rfl⟩ := hx
        exact .returnOutsideFunction hp hin
      · cases hx
    · cases hx
    · cases hx
  · intro hx
    cases hx with
    | returnOutsideFunction hv hin =>
      obtain rfl := Option.some.inj (hp.symm.trans hv)
      rw [own, Visit.own, mem_diagnostics_faultIf, Bool.not_eq_true', ← Bool.not_eq_true,
        h.inFunction]
      exact ⟨hin, rfl⟩
    | thisOutsideClass hv hin =>
      obtain rfl := Option.some.inj (hp.symm.trans hv)
      rw [own, Visit.own, if_neg fun hc => hin (h.inClass.1 hc)]
      exact List.mem_singleton_self _
    | ownInitializer hv hs hi hsc hpc =>
      obtain rfl := Option.some.inj (hp.symm.trans hv)
      rw [own, Visit.own, Findings.additive_diagnostics.append, diagnostics_ofReference,
        List.append_nil, mem_diagnostics_faultIf, h.inOwnInitializer_iff]
      exact ⟨⟨_, _, hs, hi, hsc, hpc⟩, rfl⟩

/-! ## Programs -/

/-- Nothing is in sight at the beginning of a program. -/
theorem fits_top : root.Fits [] .top where
  inFunction := iff_of_false Bool.false_ne_true fun ⟨_, ⟨h, hne⟩, _⟩ =>
    hne (List.prefix_nil.1 h)
  inClass := iff_of_false Bool.false_ne_true fun ⟨_, ⟨h, hne⟩, _⟩ =>
    hne (List.prefix_nil.1 h)
  scopes := .nil

theorem lists_program {α : Type} {f : Findings → List α} {mark : Place → α → Prop}
    {statements : List Stmt} (hf : Findings.Additive f)
    (hvalid : ∀ p x, mark p x → ((program statements).at? p).isSome)
    (hown : ∀ p piece spot, (program statements).at? p = some piece →
      (program statements).Fits p spot →
      (program statements).Lists (fun d x => d = p ∧ mark d x) (f (piece.own spot))) :
    (program statements).Lists mark (f (resolveProgram statements)) :=
  (lists_findings hf hvalid hown (p := []) rfl fits_top).congr fun _ _ =>
    (and_iff_right List.nil_prefix).symm

/-- The distances of a program are those of lexical scoping. -/
theorem lists_distances (statements : List Stmt) :
    (program statements).Lists
      (fun p x => ∃ name, (program statements).Refers p x.1 name ∧
        (program statements).Distance p name x.2)
      (resolveProgram statements).distances := by
  refine lists_program Findings.additive_distances ?_ fun p piece spot => lists_own_distances
  rintro p x ⟨name, href, -⟩
  cases href with
  | read hv | write hv | self hv _ => rw [hv]; rfl

/-- The diagnostics of a program are those of the places at fault. -/
theorem lists_diagnostics (statements : List Stmt) :
    (program statements).Lists (program statements).Faulty
      (resolveProgram statements).diagnostics := by
  refine lists_program Findings.additive_diagnostics ?_ fun p piece spot =>
    lists_own_diagnostics
  intro p x hx
  cases hx with
  | returnOutsideFunction hv _ | thisOutsideClass hv _ | ownInitializer hv _ _ _ _ =>
    rw [hv]
    rfl

end Piece

end TreeScript
