import TreeScript.Proofs.Scoping.Statements

/-!
# Programs keep worlds sound

* `SafeAt` — evaluation, execution and calls keep worlds sound, at one amount of fuel
* `evaluate_step`, `execute_step`, `call_step`, … — one step for each of them
* `safeAt` — induction on fuel
* `watchProgram_keeps` — a whole program keeps a world sound
-/

namespace TreeScript

/-- Everything keeps worlds sound, at one amount of fuel. -/
structure SafeAt (setting : Setting) (handed : List Value) (fuel : Nat) : Prop where
  evaluate : ∀ {w : World} {frame : Frame} {e : Expr}, w.Runs setting handed →
    frame.Fits w (.expression e) →
    Keeps [] w (watchEvaluate setting fuel frame e) fun value w' => w'.Knows value
  evaluateAll : ∀ {w : World} {frame : Frame} {es : List Expr}, w.Runs setting handed →
    (∀ e ∈ es, frame.Fits w (.expression e)) →
    Keeps [] w (watchEvaluateAll setting fuel frame es) fun values w' =>
      ∀ value ∈ values, w'.Knows value
  execute : ∀ {w : World} {frame : Frame} {s : Stmt}, w.Runs setting handed →
    frame.Fits w (.statement s) → frame.Apart →
    (s.declaresValue = true → w.Bounds frame.scope frame.spot.scopes) →
    Keeps [frame.scope] w (watchExecute setting fuel frame s) (Leaves w frame s)
  repeatWhile : ∀ {w : World} {frame : Frame} {condition : Expr} {body : Stmt},
    w.Runs setting handed → frame.Fits w (.statement (.loop condition body)) → frame.Apart →
    Keeps [frame.scope] w (watchRepeat setting fuel frame condition body) fun flow w' =>
      flow.Known w' ∧ Adds w frame.scope (frame.spot.after body).scopes w'
  executeAll : ∀ {w : World} {frame : Frame} {ss : List Stmt}, w.Runs setting handed →
    frame.Fits w (.statements ss) → frame.Apart → w.Bounds frame.scope frame.spot.scopes →
    Keeps [frame.scope] w (watchExecuteAll setting fuel frame ss) fun flow w' => flow.Known w'
  call : ∀ {w : World} {pending : List Pending} {paren : Token} {callee : Value}
    {arguments : List Value}, w.Runs setting handed → w.Awaits pending → w.Knows callee →
    (∀ argument ∈ arguments, w.Knows argument) →
    (w.Strict → HostCall.Fits { callee, arguments }) →
    Keeps [] w (watchCall setting fuel pending paren callee arguments) fun value w' =>
      w'.Knows value
  script : ∀ {w : World} {pending : List Pending} {paren : Token} {script : Script}
    {held : List Value}, w.Runs setting handed → w.Awaits pending →
    (∀ value ∈ held, w.Knows value) → script.Uses held →
    Keeps [] w (watchScript setting fuel pending paren script) fun value w' => w'.Knows value

namespace SafeAt

variable {setting : Setting} {handed : List Value} {fuel : Nat} {w : World} {frame : Frame}

/-- Executing a node starts with writing it down. -/
theorem enter {α : Type} {t : List ScopeRef} {node : Node} {next : Watched α}
    {post : α → World → Prop} (hw : w.Runs setting handed) (hf : frame.Fits w node)
    (hn : ∀ w', w'.Runs setting handed → w.Grows [] w' → frame.Fits w' node →
      Keeps t w' next post) : Keeps t w (Watched.enter frame node >>= fun _ => next) post := by
  have hg : w.Grows [] (w.enter frame node) := w.grows_enter frame node
  refine .bind (keeps_enter hw.sound (hf.good hw.sound)) ?_
  rintro _ w' hp - hs rfl
  exact hn _ (hw.step hp hg hs) hg (hf.next hg)

/-! ## Expressions -/

theorem evaluate_step (ih : SafeAt setting handed fuel) {e : Expr}
    (hw : w.Runs setting handed) (hf : frame.Fits w (.expression e)) :
    Keeps [] w (watchEvaluate setting (fuel + 1) frame e) fun value w' => w'.Knows value := by
  cases e with
  | constant value =>
    rw [watchEvaluate]
    refine enter hw hf fun w hw _ hf => ?_
    cases value <;> exact .pure hw.sound trivial
  | grouping inner =>
    rw [watchEvaluate]
    refine enter hw hf fun w hw _ hf => ?_
    exact ih.evaluate hw (hf.child (by simp [Visit.children, Expr.parts]))
  | unary operator operand =>
    rw [watchEvaluate]
    refine enter hw hf fun w hw _ hf => ?_
    refine .bind (ih.evaluate hw (hf.child (by simp [Visit.children, Expr.parts]))) ?_
    intro value w _ _ hs _
    exact keeps_ofOperator hs operator fun _ h => World.knows_of_isPlain (unaryResult_isPlain h)
  | binary left operator right =>
    rw [watchEvaluate]
    refine enter hw hf fun w hw _ hf => ?_
    refine .bind (ih.evaluate hw (hf.child (by simp [Visit.children, Expr.parts]))) ?_
    intro a w hp hg hs _
    refine .bind (ih.evaluate (hw.step hp hg hs)
      ((hf.next hg).child (by simp [Visit.children, Expr.parts]))) ?_
    intro b w _ _ hs hb
    refine keeps_ofOperator hs operator fun _ h => ?_
    rcases binaryResult_isPlain h with rfl | hplain
    · exact hb
    · exact World.knows_of_isPlain hplain
  | logical left operator right =>
    rw [watchEvaluate]
    refine enter hw hf fun w hw _ hf => ?_
    refine .bind (ih.evaluate hw (hf.child (by simp [Visit.children, Expr.parts]))) ?_
    intro a w hp hg hs ha
    split
    · exact .pure hs ha
    · exact ih.evaluate (hw.step hp hg hs)
        ((hf.next hg).child (by simp [Visit.children, Expr.parts]))
  | ternary condition question whenTrue whenFalse =>
    rw [watchEvaluate]
    refine enter hw hf fun w hw _ hf => ?_
    refine .bind (ih.evaluate hw (hf.child (by simp [Visit.children, Expr.parts]))) ?_
    intro decision w hp hg hs _
    split
    · exact ih.evaluate (hw.step hp hg hs)
        ((hf.next hg).child (by simp [Visit.children, Expr.parts]))
    · exact ih.evaluate (hw.step hp hg hs)
        ((hf.next hg).child (by simp [Visit.children, Expr.parts]))
  | «variable» id name =>
    rw [watchEvaluate]
    refine enter hw hf fun w hw _ hf => ?_
    exact keeps_readName hw.prepared hw.sound hf rfl
  | assign id name value =>
    rw [watchEvaluate]
    refine enter hw hf fun w hw _ hf => ?_
    refine .bind (ih.evaluate hw (hf.child (by simp [Visit.children, Expr.parts]))) ?_
    intro v w hp hg hs hv
    refine .bind (keeps_writeName (hw.step hp hg hs).prepared hs (hf.next hg) rfl hv) ?_
    intro _ w _ _ hs hv
    exact .pure hs hv
  | call callee paren arguments =>
    rw [watchEvaluate]
    refine enter hw hf fun w hw _ hf => ?_
    refine .bind (ih.evaluate hw (hf.child (by simp [Visit.children, Expr.parts]))) ?_
    intro f w hp hg hs hcallee
    replace hw := hw.step hp hg hs
    replace hf := hf.next hg
    refine .bind (ih.evaluateAll hw fun e he =>
      hf.child (by simp [Visit.children, Expr.parts, he])) ?_
    intro values w hp hg hs harguments
    cases ha : f.arity? setting with
    | none => exact .fault hs paren _
    | some arity =>
      simp only
      split
      · rename_i hlength
        refine ih.call (hw.step hp hg hs) (hf.next hg).awaits (hcallee.mono hg) harguments ?_
        rintro - closure hclosure
        replace hclosure : f = .function closure := hclosure
        rw [hclosure] at ha
        cases ha
        exact hlength
      · exact .fault hs paren _
  | get object name =>
    rw [watchEvaluate]
    refine enter hw hf fun w hw _ hf => ?_
    refine .bind (ih.evaluate hw (hf.child (by simp [Visit.children, Expr.parts]))) ?_
    intro value w _ _ hs hv
    cases value with
    | object address ofClass => exact keeps_property hs hv name
    | _ => exact .fault hs name _
  | set object name value =>
    rw [watchEvaluate]
    refine enter hw hf fun w hw _ hf => ?_
    refine .bind (ih.evaluate hw (hf.child (by simp [Visit.children, Expr.parts]))) ?_
    intro target w hp hg hs _
    cases target with
    | object address ofClass =>
      refine .bind (ih.evaluate (hw.step hp hg hs)
        ((hf.next hg).child (by simp [Visit.children, Expr.parts]))) ?_
      intro v w _ _ hs hv
      refine .bind (keeps_setField hs address name.lexeme hv) ?_
      intro _ w _ _ hs hv
      exact .pure hs hv
    | _ => exact .fault hs name _
  | self id keyword =>
    rw [watchEvaluate]
    refine enter hw hf fun w hw _ hf => ?_
    exact keeps_readName hw.prepared hw.sound hf rfl
  | function declaration =>
    rw [watchEvaluate]
    refine enter hw hf fun w hw _ hf => ?_
    have hinner : frame.Fits w (.function declaration) :=
      hf.child (by simp [Visit.children, Expr.parts])
    refine (keeps_newClosure hw.sound frame.spot frame.scope declaration).imp ?_
    rintro _ w' - hg - ⟨rfl, rfl⟩
    exact ⟨frame.spot, hw.sound.origin_make frame.spot, hinner.walked.mono hg.programs,
      hinner.mirrors.mono hg⟩

theorem evaluateAll_step (ih : SafeAt setting handed fuel) {es : List Expr}
    (hw : w.Runs setting handed) (hf : ∀ e ∈ es, frame.Fits w (.expression e)) :
    Keeps [] w (watchEvaluateAll setting (fuel + 1) frame es) fun values w' =>
      ∀ value ∈ values, w'.Knows value := by
  cases es with
  | nil =>
    rw [watchEvaluateAll]
    exact .pure hw.sound (List.forall_mem_nil _)
  | cons first rest =>
    rw [watchEvaluateAll]
    rw [List.forall_mem_cons] at hf
    refine .bind (ih.evaluate hw hf.1) ?_
    intro value w hp hg hs hv
    refine .bind (ih.evaluateAll (hw.step hp hg hs) fun e he => (hf.2 e he).next hg) ?_
    intro values w _ hg hs hvs
    exact .pure hs (List.forall_mem_cons.2 ⟨hv.mono hg, hvs⟩)

/-! ## Calls -/

/-- The frame in which the body of a function is executed. -/
def bodyFrame (w : World) (spot : Spot) (declaration : FunctionDecl)
    (pending : List Pending) : Frame :=
  { spot := spot.inBody declaration.parameters, scope := w.scopes.size, pending }

/-- Once the parameters are bound, the body of a function may be executed. -/
theorem body_fits {w' : World} {pending : List Pending} {identity : Nat} {scope : ScopeRef}
    {declaration : FunctionDecl} {spot : Spot} (ha : w.Awaits pending)
    (hk : w.KnowsFunction identity scope declaration spot)
    (hg : (w.create scope).Grows [w.scopes.size] w')
    (hd : ∀ x, (∃ p ∈ declaration.parameters, p.lexeme = x) →
      w'.defined w.scopes.size x) :
    (bodyFrame w spot declaration pending).Fits w' (.statements declaration.body) where
  walked := by
    have hall : w.Grows [w.scopes.size] w' := (w.grows_create scope).trans hg
    exact (hk.walked.mono hall.programs).child (List.mem_singleton.2 rfl)
  mirrors := by
    refine hk.mirrors.inner (.single (List.mem_singleton.2 rfl)) hg fun x hx => ?_
    rw [Std.TreeMap.mem_iff_isSome_getElem?, StaticScope.getElem?_ofParameters] at hx
    split at hx
    · rename_i hp
      exact ⟨by rw [StaticScope.getElem?_ofParameters, if_pos hp], hd x hp⟩
    · cases hx
  awaits := by
    have hall : w.Grows [w.scopes.size] w' := (w.grows_create scope).trans hg
    exact ha.mono hall fun p hp hs => ha.ne_size p hp (List.mem_singleton.1 hs)

theorem body_bounds {w' : World} {pending : List Pending} {declaration : FunctionDecl}
    {spot : Spot}
    (hd : ∀ x, w'.defined w.scopes.size x → ∃ p ∈ declaration.parameters, p.lexeme = x) :
    w'.Bounds w.scopes.size (bodyFrame w spot declaration pending).spot.scopes := by
  rintro _ ⟨⟩ x hx
  rw [Std.TreeMap.mem_iff_isSome_getElem?, StaticScope.getElem?_ofParameters,
    if_pos (hd x hx)]
  rfl

theorem call_step (ih : SafeAt setting handed fuel) {pending : List Pending} {paren : Token}
    {callee : Value} {arguments : List Value} (hw : w.Runs setting handed)
    (ha : w.Awaits pending) (hc : w.Knows callee)
    (hv : ∀ argument ∈ arguments, w.Knows argument)
    (hn : w.Strict → HostCall.Fits { callee, arguments }) :
    Keeps [] w (watchCall setting (fuel + 1) pending paren callee arguments) fun value w' =>
      w'.Knows value := by
  cases callee with
  | function closure =>
    rw [watchCall]
    obtain ⟨spot, hk⟩ := hc
    -- only the scope of the call is touched, which does not exist yet
    refine Keeps.weaken (t := [w.scopes.size]) ?_ (by simp)
    refine .bind (keeps_origin hw.sound hk.origin) ?_
    rintro _ _ - - - ⟨rfl, rfl⟩
    refine .bind (keeps_newScope hw.sound closure.scope) ?_
    rintro _ _ hp - hs ⟨rfl, rfl⟩
    have hg : w.Grows [] (w.create closure.scope) := w.grows_create closure.scope
    have hnew : w.scopes.size < (w.create closure.scope).scopes.size :=
      Scopes.lt_size_create _
    refine .bind (keeps_defineAll hs hnew (by simp) (fun hstrict => hn (hstrict.anti hg) _ rfl)
      fun a h => (hv a h).mono hg) ?_
    intro _ w' hp' hg' hs' hdefined
    replace hdefined : ∀ x, w'.defined w.scopes.size x ↔
        ∃ p ∈ closure.declaration.parameters, p.lexeme = x := by
      intro x
      rw [hdefined x, or_iff_right]
      exact fun hx => Nat.lt_irrefl _ (hw.sound.exist _ x hx)
    have hgrows : w.Grows [w.scopes.size] w' := .trans (w.grows_create closure.scope) hg'
    refine .bind (ih.executeAll (hw.step (hp'.trans hp) hgrows hs')
      (body_fits ha hk hg' fun x => (hdefined x).2) ha.ne_size
      (body_bounds fun x => (hdefined x).1)) ?_
    intro flow w'' _ _ hs'' hflow
    cases flow with
    | giveBack value => exact .pure hs'' hflow
    | normal _ | leave => exact .pure hs'' trivial
  | classObject object =>
    rw [watchCall]
    exact keeps_newObject hw.sound hc
  | native host =>
    rw [watchCall]
    cases hh : setting.natives[host.identity]? with
    | none => exact .pure hw.sound trivial
    | some found =>
      refine ih.script hw ha (fun value hm => ?_)
        (hw.prepared.honest found (Array.mem_of_getElem? hh) arguments)
      rcases List.mem_append.1 hm with hm | hm
      · exact hv value hm
      · exact hw.handed value hm
  | nil | bool _ | number _ | string _ | object _ _ =>
    rw [watchCall] <;> first | exact .fault hw.sound paren _ | simp

theorem script_step (ih : SafeAt setting handed fuel) {pending : List Pending} {paren : Token}
    {script : Script} {held : List Value} (hw : w.Runs setting handed)
    (ha : w.Awaits pending) (hh : ∀ value ∈ held, w.Knows value) (hu : script.Uses held) :
    Keeps [] w (watchScript setting (fuel + 1) pending paren script) fun value w' =>
      w'.Knows value := by
  have hknown : ∀ {value}, value.isPlain = true ∨ value ∈ held → w.Knows value :=
    fun h => h.elim World.knows_of_isPlain (hh _)
  cases hu with
  | answer hv =>
    rw [watchScript]
    exact .pure hw.sound (hknown hv)
  | fail =>
    rw [watchScript]
    exact .fault hw.sound paren _
  | @call _ arguments callee next hcallee harguments hok herror =>
    rw [watchScript]
    refine .bind (keeps_noteHostCall hw.sound callee arguments) ?_
    rintro _ _ hp - hs rfl
    have hg : w.Grows [] (w.note { callee, arguments }) := w.grows_note _
    have hcall : Keeps [] (w.note { callee, arguments })
        (watchCall setting fuel pending paren callee arguments) fun value w' =>
          w'.Knows value :=
      ih.call (hw.step hp hg hs) (ha.mono hg (by simp)) ((hknown hcallee).mono hg)
        (fun a hm => (hknown (harguments a hm)).mono hg)
        fun hstrict => hstrict.fits _ List.mem_cons_self
    refine .bind hcall.attempt ?_
    intro result w' hp' hg' hs' hresult
    have hgrows : w.Grows [] w' := hg.trans hg'
    have hwaits := ha.mono hgrows (by simp)
    cases result with
    | ok value =>
      refine ih.script (hw.step (hp'.trans hp) hgrows hs') hwaits ?_ (hok value)
      rw [List.forall_mem_cons]
      exact ⟨hresult value rfl, fun v hv => (hh v hv).mono hgrows⟩
    | error diagnostic =>
      exact ih.script (hw.step (hp'.trans hp) hgrows hs') hwaits
        (fun v hv => (hh v hv).mono hgrows) (herror diagnostic.message)

/-! ## Statements -/

theorem executeAll_step (ih : SafeAt setting handed fuel) {ss : List Stmt}
    (hw : w.Runs setting handed) (hf : frame.Fits w (.statements ss)) (ha : frame.Apart)
    (hb : w.Bounds frame.scope frame.spot.scopes) :
    Keeps [frame.scope] w (watchExecuteAll setting (fuel + 1) frame ss) fun flow w' =>
      flow.Known w' := by
  cases ss with
  | nil =>
    rw [watchExecuteAll]
    exact .pure hw.sound trivial
  | cons first rest =>
    rw [watchExecuteAll]
    have hfirst : frame.Fits w (.statement first) := hf.child (by simp [Visit.children])
    refine .bind (ih.execute hw hfirst ha fun _ => hb) ?_
    intro flow w' hp hg hs hleaves
    cases flow with
    | giveBack value => exact .pure hs hleaves.known
    | leave => exact .pure hs trivial
    | normal value =>
      have hunfolds := first.unfolds frame.spot.around frame.spot.scopes
      exact ih.executeAll (hw.step hp hg hs)
        ((hf.beyond ha hg).later (by simp [Visit.children]) hunfolds (hleaves.defines ⟨value, rfl⟩))
        ha (hb.later hunfolds hleaves.adds)

theorem repeatWhile_step (ih : SafeAt setting handed fuel) {condition : Expr} {body : Stmt}
    (hw : w.Runs setting handed) (hf : frame.Fits w (.statement (.loop condition body)))
    (ha : frame.Apart) :
    Keeps [frame.scope] w (watchRepeat setting (fuel + 1) frame condition body) fun flow w' =>
      flow.Known w' ∧ Adds w frame.scope (frame.spot.after body).scopes w' := by
  rw [watchRepeat]
  have hlt := hf.mirrors.lt_size hw.sound
  have hshape := hw.prepared.shaped _ hf.walked
  refine .bind (ih.evaluate hw (hf.child (by simp [Visit.children, Stmt.visits]))).of_nil ?_
  rintro decision w' hp - hs ⟨hg, -⟩
  replace hw := hw.step hp hg hs
  replace hf := hf.next hg
  split
  · refine .bind (ih.execute hw (hf.child (by simp [Visit.children, Stmt.visits])) ha
      fun hv => ?_) ?_
    · rw [hshape] at hv
      cases hv
    · intro flow w'' hp' hg' hs' hleaves
      have hadds := (Adds.of_grows hlt hg).trans hleaves.adds
      cases flow with
      | leave => exact .pure hs' ⟨trivial, hadds⟩
      | giveBack value => exact .pure hs' ⟨hleaves.known, hadds⟩
      | normal value =>
        refine (ih.repeatWhile (hw.step hp' hg' hs') (hf.beyond ha hg') ha).imp ?_
        exact fun _ _ _ _ _ h => ⟨h.1, hadds.trans h.2⟩
  · exact .pure hs ⟨trivial, .of_grows hlt hg⟩

/-- Executing a statement starts with writing it down. -/
theorem executing {s : Stmt} {next : Watched Flow} (hw : w.Runs setting handed)
    (hf : frame.Fits w (.statement s))
    (hn : ∀ w', w'.Runs setting handed → w.Grows [] w' → frame.Fits w' (.statement s) →
      Keeps [frame.scope] w' next (Leaves w' frame s)) :
    Keeps [frame.scope] w (Watched.enter frame (.statement s) >>= fun _ => next)
      (Leaves w frame s) :=
  enter hw hf fun w' hw' hg hf' =>
    (hn w' hw' hg hf').imp fun _ _ _ _ _ h => h.before (hf.mirrors.lt_size hw.sound) hg

/-- A block touches only its own scope, which does not exist before. -/
theorem block_step (ih : SafeAt setting handed fuel) {body : List Stmt}
    (hw : w.Runs setting handed) (hf : frame.Fits w (.statement (.block body))) :
    Keeps [] w (Watched.lift (Run.newScope frame.scope) >>= fun inner =>
      watchExecuteAll setting fuel { frame with spot := frame.spot.inBlock, scope := inner } body)
      fun flow w' => flow.Known w' := by
  refine Keeps.weaken (t := [w.scopes.size]) ?_ (by simp)
  refine .bind (keeps_newScope hw.sound frame.scope) ?_
  rintro _ _ hp - hs ⟨rfl, rfl⟩
  have hg : w.Grows [] (w.create frame.scope) := w.grows_create frame.scope
  refine ih.executeAll (hw.step hp hg hs) ?_ hf.awaits.ne_size ?_
  · exact {
      walked := hf.walked.child (by simp [Visit.children, Stmt.visits])
      mirrors := hf.mirrors.inner (.single (by simp [Visit.children, Stmt.visits])) (.refl _)
        (by simp)
      awaits := hf.awaits.mono hg (by simp) }
  · rintro _ ⟨⟩ x hx
    exact absurd (hw.sound.exist _ x hx) (Nat.lt_irrefl _)

theorem unfolds_conditional (spot : Spot) (condition : Expr) (whenTrue : Stmt)
    (whenFalse : Option Stmt) :
    StaticScope.Unfolds (spot.after whenTrue).scopes
      (spot.after (.conditional condition whenTrue whenFalse)).scopes := by
  cases whenFalse with
  | none =>
    rw [Spot.after, Spot.after, Stmt.resolve]
    exact .refl _
  | some branch =>
    rw [Spot.after, Spot.after, Stmt.resolve]
    exact branch.unfolds _ _

/-- The names of the first branch are defined before the second one is executed. -/
theorem conditional_step (ih : SafeAt setting handed fuel) {condition : Expr}
    {whenTrue : Stmt} {whenFalse : Option Stmt} (hw : w.Runs setting handed)
    (hf : frame.Fits w (.statement (.conditional condition whenTrue whenFalse)))
    (ha : frame.Apart) :
    Keeps [frame.scope] w (do
      let decision ← watchEvaluate setting fuel frame condition
      if decision.isTruthy then watchExecute setting fuel frame whenTrue
      else
        match whenFalse with
        | some branch =>
          watchExecute setting fuel { frame with spot := frame.spot.after whenTrue } branch
        | none => return .normal .nil)
      fun flow w' => flow.Known w' ∧
        Adds w frame.scope
          (frame.spot.after (.conditional condition whenTrue whenFalse)).scopes w' := by
  have hlt := hf.mirrors.lt_size hw.sound
  have hshape := hw.prepared.shaped _ hf.walked
  have hcondition : frame.Fits w (.expression condition) := by
    cases whenFalse <;> exact hf.child (by simp [Visit.children, Stmt.visits])
  refine .bind (ih.evaluate hw hcondition).of_nil ?_
  rintro decision w' hp - hs ⟨hg, -⟩
  replace hw := hw.step hp hg hs
  replace hf := hf.next hg
  have htrue : frame.Fits w' (.statement whenTrue) := by
    cases whenFalse <;> exact hf.child (by simp [Visit.children, Stmt.visits])
  have hunfolds := unfolds_conditional frame.spot condition whenTrue whenFalse
  split
  · refine (ih.execute hw htrue ha fun hv => ?_).imp fun flow w'' _ _ _ hleaves => ?_
    · rw [hshape.1] at hv
      cases hv
    · exact ⟨hleaves.known, (Adds.of_grows hlt hg).trans (hleaves.adds.unfold hunfolds)⟩
  · cases whenFalse with
    | none => exact .pure hs ⟨trivial, .of_grows hlt hg⟩
    | some branch =>
      let settled := w'.settle frame.scope (frame.spot.after whenTrue).scopes
      have hgrows : w'.Grows [frame.scope] settled := w'.grows_mark _ (by simp)
      have hsettled : settled.Sound := hs.settle hf.mirrors <|
        hw.after_eq htrue.walked hshape.1 fun hstrict => (hstrict.braced _ hf.walked).1
      have hadds : Adds w frame.scope
          (frame.spot.after (.conditional condition whenTrue (some branch))).scopes settled :=
        (Adds.of_grows hlt hg).trans (World.settle_adds.unfold hunfolds)
      have hbranch : Frame.Fits settled { frame with spot := frame.spot.after whenTrue }
          (.statement branch) :=
        (hf.beyond ha hgrows).later (by simp [Visit.children, Stmt.visits])
          (whenTrue.unfolds _ _) World.settle_defines
      have hruns : settled.Runs setting handed := hw.step rfl hgrows hsettled
      have hexecute := ih.execute hruns hbranch ha fun hv => by
        rw [hshape.2 branch rfl] at hv
        cases hv
      refine (Keeps.after (w := w') hexecute rfl rfl rfl hgrows).imp fun flow w'' _ _ _ hleaves => ?_
      refine ⟨hleaves.known, hadds.trans ?_⟩
      have hafter := hleaves.adds
      rw [Spot.after, Stmt.resolve]
      exact hafter

/-! ## Declarations -/

/-- A function written inline is made without a look at any name. -/
theorem inline_step {fuel : Nat} {value : Expr} {v : Visit} (hi : value.isInline = true)
    (hw : w.Sound) (hwalked : Walked w.programs ⟨frame.spot, .expression value⟩)
    (hm : w.Mirrors v frame.scope frame.spot.scopes) :
    Keeps [] w (watchEvaluate setting fuel frame value) fun result w' =>
      ∃ closure : Closure, result = .function closure ∧ closure.scope = frame.scope ∧
        w'.journal.origins[closure.identity]? = some frame.spot ∧
        (Visit.mk frame.spot (.expression value)).Leads
          ⟨frame.spot, .function closure.declaration⟩ := by
  induction fuel generalizing w value with
  | zero =>
    rw [watchEvaluate]
    exact .stuck hw
  | succ fuel ih =>
    cases value with
    | grouping inner =>
      have hchild : Visit.mk frame.spot (.expression inner) ∈
          (Visit.mk frame.spot (.expression (.grouping inner))).children := by
        simp [Visit.children, Expr.parts]
      have hinner : inner.isInline = true := hi
      have hg := w.grows_enter (t := []) frame (.expression (.grouping inner))
      rw [watchEvaluate]
      refine .bind (keeps_enter hw (hm.good hw hwalked rfl)) ?_
      rintro _ _ - - hs rfl
      refine (ih hinner hs (hwalked.child hchild) (hm.mono hg)).imp ?_
      rintro _ w' - - - ⟨closure, hresult, hscope, horigin, hleads⟩
      exact ⟨closure, hresult, hscope, horigin, .head hchild hleads⟩
    | function declaration =>
      rw [watchEvaluate]
      refine .bind (keeps_enter hw (hm.good hw hwalked rfl)) ?_
      rintro _ _ - - hs rfl
      refine (keeps_newClosure hs frame.spot frame.scope declaration).imp ?_
      rintro _ _ - - - ⟨rfl, rfl⟩
      exact ⟨_, rfl, rfl, hs.origin_make frame.spot,
        .single (by simp [Visit.children, Expr.parts])⟩
    | _ => cases hi

/-- A variable is bound after its initializer.  A function written inline is known only
then, since its body may refer to the variable. -/
theorem varDecl_step (ih : SafeAt setting handed fuel) {name : Token} {value : Expr}
    (hw : w.Runs setting handed)
    (hf : frame.Fits w (.statement (.varDecl name (some value))))
    (hb : w.Bounds frame.scope frame.spot.scopes) :
    Keeps [frame.scope] w (do
      let v ← watchEvaluate setting fuel (frame.initializing name.lexeme) value
      Watched.lift (Run.define frame.scope name.lexeme (some v))
      return .normal .nil)
      (Leaves w frame (.varDecl name (some value))) := by
  have hlt := hf.mirrors.lt_size hw.sound
  have hchild : Visit.mk (frame.spot.declare name.lexeme false) (.expression value) ∈
      (Visit.mk frame.spot (.statement (.varDecl name (some value)))).children := by
    simp [Visit.children, Stmt.visits]
  have hvalue : Keeps [] w
      (watchEvaluate setting fuel (frame.initializing name.lexeme) value) fun v w' =>
        (w'.define frame.scope name.lexeme (some v) True).Knows v := by
    cases hi : value.isInline with
    | false =>
      have hinner : (frame.initializing name.lexeme).Fits w (.expression value) := {
        walked := hf.walked.child hchild
        mirrors := hf.mirrors.initializer hw hf.walked hi
        awaits := hf.awaits.initializing hlt hb name.lexeme }
      refine (ih.evaluate hw hinner).imp fun v w' _ _ _ hv => hv.mono (t := [frame.scope]) ?_
      exact w'.grows_define _ _ _ (by simp)
    | true =>
      have hmade : Keeps [] w
          (watchEvaluate setting fuel (frame.initializing name.lexeme) value) _ :=
        inline_step hi hw.sound (hf.walked.child hchild) (hf.mirrors.idle_declare name.lexeme)
      refine hmade.imp ?_
      rintro _ w' - hg - ⟨closure, rfl, hscope, horigin, hleads⟩
      have hgrows : w.Grows [frame.scope]
          (w'.define frame.scope name.lexeme (some (.function closure)) True) :=
        (hg.weaken (by simp)).trans (w'.grows_define _ _ _ (by simp))
      refine ⟨_, horigin, ((hf.walked.mono hgrows.programs).child hchild).leads hleads, ?_⟩
      rw [hscope]
      have hmirrors := (hf.mirrors.mono hgrows).declare (.inr ⟨trivial, rfl, rfl⟩) false
      exact hmirrors.leads (.head hchild hleads)
  refine .bind hvalue.of_nil ?_
  rintro v w' hp - hs ⟨hg, hv⟩
  refine .bind (keeps_define hs (Nat.lt_of_lt_of_le hlt hg.size) (by simp)
    (by simpa using hv)) ?_
  rintro _ _ - - hs rfl
  exact .pure hs (.declare hf.mirrors hw.sound (by rw [Spot.after, Stmt.resolve]) hg trivial)

/-- A function is declared before its body is resolved, and is made before it is bound. -/
theorem function_step {declaration : FunctionDecl} (hw : w.Runs setting handed)
    (hf : frame.Fits w (.statement (.function declaration))) :
    Keeps [frame.scope] w (do
      let f ← Watched.making (frame.spot.after (.function declaration))
        (Run.newClosure frame.scope declaration)
      Watched.lift (Run.define frame.scope declaration.displayName (some f))
      return .normal .nil)
      (Leaves w frame (.function declaration)) := by
  have hlt := hf.mirrors.lt_size hw.sound
  have hafter : (frame.spot.after (.function declaration)).scopes =
      StaticScope.declare frame.spot.scopes declaration.displayName true := by
    obtain ⟨name, parameters, body⟩ := declaration
    obtain ⟨name, rfl⟩ := Option.isSome_iff_exists.1 (hw.prepared.shaped _ hf.walked)
    rw [Spot.after, Stmt.resolve]
    rfl
  have hchild : Visit.mk (frame.spot.after (.function declaration)) (.function declaration) ∈
      (Visit.mk frame.spot (.statement (.function declaration))).children := by
    simp [Visit.children, Stmt.visits]
  refine .bind (keeps_newClosure hw.sound (frame.spot.after (.function declaration))
    frame.scope declaration).of_nil ?_
  rintro f w' hp - hs ⟨hg, hclosure, rfl⟩
  let made := w.make (frame.spot.after (.function declaration))
  let bound := made.define frame.scope declaration.displayName (some f) True
  have hgrows : w.Grows [frame.scope] bound :=
    (hg.weaken (by simp)).trans (made.grows_define _ _ _ (by simp))
  have hknown : bound.Knows f := by
    rw [hclosure]
    refine ⟨_, hw.sound.origin_make _, (hf.walked.mono hgrows.programs).child hchild, ?_⟩
    rw [hafter]
    exact ((hf.mirrors.mono hgrows).declare (.inr ⟨trivial, rfl, rfl⟩) true).leads
      (.single hchild)
  refine .bind (keeps_define hs (Nat.lt_of_lt_of_le hlt hg.size) (by simp)
    (by simpa using hknown)) ?_
  rintro _ _ - - hs rfl
  exact .pure hs (.declare hf.mirrors hw.sound hafter hg trivial)

/-- A class is declared before its methods are resolved, and is made before it is bound. -/
theorem classDecl_step {name : Token} {methods : List FunctionDecl}
    (hw : w.Runs setting handed) (hf : frame.Fits w (.statement (.classDecl name methods))) :
    Keeps [frame.scope] w (do
      let c ← Watched.making (frame.spot.declare name.lexeme true).inClass
        (Run.newClass frame.scope name.lexeme methods)
      Watched.lift (Run.define frame.scope name.lexeme (some c))
      return .normal .nil)
      (Leaves w frame (.classDecl name methods)) := by
  have hlt := hf.mirrors.lt_size hw.sound
  have hchild : ∀ d ∈ methods, Visit.mk (frame.spot.declare name.lexeme true).inClass
      (.function d) ∈ (Visit.mk frame.spot (.statement (.classDecl name methods))).children := by
    intro d hd
    simp [Visit.children, Stmt.visits, hd]
  refine .bind (keeps_newClass hw.sound (frame.spot.declare name.lexeme true).inClass
    frame.scope name.lexeme methods).of_nil ?_
  rintro _ w' hp - hs ⟨hg, object, rfl, rfl, hidentity, hscope, hmethods⟩
  let made := w.make (frame.spot.declare name.lexeme true).inClass
  let bound := made.define frame.scope name.lexeme (some (.classObject object)) True
  have hgrows : w.Grows [frame.scope] bound :=
    (hg.weaken (by simp)).trans (made.grows_define _ _ _ (by simp))
  have hmirrors := (hf.mirrors.mono hgrows).declare (.inr ⟨trivial, rfl, rfl⟩) true
  have hknown : bound.Knows (.classObject object) := by
    refine ⟨(frame.spot.declare name.lexeme true).inClass,
      StaticScope.declare frame.spot.scopes name.lexeme true, ?_, rfl, ?_, ?_⟩
    · rw [hidentity]
      exact hw.sound.origin_make _
    · exact fun x d hd => (hf.walked.mono hgrows.programs).child (hchild d (hmethods x d hd))
    · intro x d hd
      rw [hscope]
      exact hmirrors.leads (.single (hchild d (hmethods x d hd)))
  refine .bind (keeps_define hs (Nat.lt_of_lt_of_le hlt hg.size) (by simp)
    (by simpa using hknown)) ?_
  rintro _ _ - - hs rfl
  exact .pure hs (.declare hf.mirrors hw.sound (by rw [Spot.after, Stmt.resolve]) hg trivial)

theorem execute_step (ih : SafeAt setting handed fuel) {s : Stmt}
    (hw : w.Runs setting handed) (hf : frame.Fits w (.statement s)) (ha : frame.Apart)
    (hb : s.declaresValue = true → w.Bounds frame.scope frame.spot.scopes) :
    Keeps [frame.scope] w (watchExecute setting (fuel + 1) frame s) (Leaves w frame s) := by
  have hlt := hf.mirrors.lt_size hw.sound
  match s with
  | .expression value =>
    rw [watchExecute]
    refine executing hw hf fun w hw _ hf => ?_
    refine .bind (ih.evaluate hw (hf.child (by simp [Visit.children, Stmt.visits]))).of_nil ?_
    rintro v w' - - hs ⟨hg, hv⟩
    exact .pure hs (.of_grows hf.mirrors hw.sound (by rw [Spot.after, Stmt.resolve]) hg hv)
  | .print value =>
    rw [watchExecute]
    refine executing hw hf fun w hw _ hf => ?_
    refine .bind (ih.evaluate hw (hf.child (by simp [Visit.children, Stmt.visits]))).of_nil ?_
    rintro v w' - - hs ⟨hg, -⟩
    refine .bind (keeps_print hs v.text).of_nil ?_
    rintro _ w'' - - hs' ⟨hg', -⟩
    exact .pure hs' (.of_grows hf.mirrors hw.sound (by rw [Spot.after, Stmt.resolve])
      (hg.trans hg') trivial)
  | .varDecl name none =>
    rw [watchExecute]
    refine executing hw hf fun w hw hg hf => ?_
    refine .bind (keeps_define hw.sound (Nat.lt_of_lt_of_le hlt hg.size) (by simp) (by simp)) ?_
    rintro _ _ - - hs rfl
    exact .pure hs (.declare hf.mirrors hw.sound (by rw [Spot.after, Stmt.resolve]) (.refl w)
      trivial)
  | .varDecl name (some value) =>
    rw [watchExecute]
    refine executing hw hf fun w hw hg hf => ?_
    exact varDecl_step ih hw hf ((hb rfl).next hlt hg)
  | .block body =>
    rw [watchExecute]
    refine executing hw hf fun w hw _ hf => ?_
    refine (block_step ih hw hf).of_nil.imp ?_
    rintro flow w' - - hs ⟨hg, hflow⟩
    exact .of_grows hf.mirrors hw.sound (by rw [Spot.after, Stmt.resolve]) hg hflow
  | .conditional condition whenTrue none =>
    rw [watchExecute]
    refine executing hw hf fun w hw _ hf => ?_
    exact .settle hf.mirrors (hw.after_eq hf.walked rfl fun _ => rfl)
      (conditional_step ih hw hf ha)
  | .conditional condition whenTrue (some whenFalse) =>
    rw [watchExecute]
    refine executing hw hf fun w hw _ hf => ?_
    exact .settle hf.mirrors (hw.after_eq hf.walked rfl fun _ => rfl)
      (conditional_step ih hw hf ha)
  | .loop condition body =>
    rw [watchExecute]
    refine executing hw hf fun w hw _ hf => ?_
    refine .settle hf.mirrors (hw.after_eq hf.walked rfl fun _ => rfl) ?_
    rw [Spot.after, Stmt.resolve]
    exact ih.repeatWhile hw hf ha
  | .leave _ =>
    rw [watchExecute]
    refine executing hw hf fun w hw _ hf => ?_
    exact .pure hw.sound (.of_grows hf.mirrors hw.sound (by rw [Spot.after, Stmt.resolve])
      (.refl w) trivial)
  | .function declaration =>
    rw [watchExecute]
    exact executing hw hf fun w hw _ hf => function_step hw hf
  | .giveBack _ none =>
    rw [watchExecute]
    refine executing hw hf fun w hw _ hf => ?_
    exact .pure hw.sound (.of_grows hf.mirrors hw.sound (by rw [Spot.after, Stmt.resolve])
      (.refl w) trivial)
  | .giveBack _ (some value) =>
    rw [watchExecute]
    refine executing hw hf fun w hw _ hf => ?_
    refine .bind (ih.evaluate hw (hf.child (by simp [Visit.children, Stmt.visits]))).of_nil ?_
    rintro v w' - - hs ⟨hg, hv⟩
    exact .pure hs (.of_grows hf.mirrors hw.sound (by rw [Spot.after, Stmt.resolve]) hg hv)
  | .classDecl name methods =>
    rw [watchExecute]
    exact executing hw hf fun w hw _ hf => classDecl_step hw hf

end SafeAt

/-! ## Programs -/

theorem safeAt (setting : Setting) (handed : List Value) (fuel : Nat) :
    SafeAt setting handed fuel := by
  induction fuel with
  | zero =>
    constructor
    · intro w frame e hw _
      rw [watchEvaluate]
      exact .stuck hw.sound
    · intro w frame es hw _
      rw [watchEvaluateAll]
      exact .stuck hw.sound
    · intro w frame s hw _ _ _
      rw [watchExecute]
      exact .stuck hw.sound
    · intro w frame condition body hw _ _
      rw [watchRepeat]
      exact .stuck hw.sound
    · intro w frame ss hw _ _ _
      rw [watchExecuteAll]
      exact .stuck hw.sound
    · intro w pending paren callee arguments hw _ _ _ _
      rw [watchCall]
      exact .stuck hw.sound
    · intro w pending paren script held hw _ _ _
      rw [watchScript]
      exact .stuck hw.sound
  | succ fuel ih =>
    exact {
      evaluate := ih.evaluate_step
      evaluateAll := ih.evaluateAll_step
      execute := ih.execute_step
      repeatWhile := ih.repeatWhile_step
      executeAll := ih.executeAll_step
      call := ih.call_step
      script := ih.script_step }

/-- Statements among the globals keep a world sound. -/
theorem watchStatements_keeps {setting : Setting} {handed : List Value} {fuel : Nat}
    {ss : List Stmt} {w : World} {frame : Frame} {last : Value}
    (hw : w.Runs setting handed) (hf : frame.Fits w (.statements ss)) (ha : frame.Apart)
    (hglobal : frame.spot.scopes = []) (hl : w.Knows last) :
    Keeps [frame.scope] w (watchStatements setting fuel frame last ss) fun value w' =>
      w'.Knows value := by
  induction ss generalizing w frame last with
  | nil => exact .pure hw.sound hl
  | cons first rest ih =>
    have hfirst : frame.Fits w (.statement first) := hf.child (by simp [Visit.children])
    have hunfolds := first.unfolds frame.spot.around frame.spot.scopes
    have hafter : (frame.spot.after first).scopes = [] := hunfolds.eq_nil hglobal
    refine .bind ((safeAt setting handed fuel).execute hw hfirst ha fun _ => ?_) ?_
    · rw [hglobal]
      exact .globals
    · intro flow w' hp hg hs hleaves
      refine @ih w' { frame with spot := frame.spot.after first } flow.value
        (hw.step hp hg hs) ?_ ha hafter ?_
      · refine (hf.beyond ha hg).later (by simp [Visit.children]) hunfolds ?_
        rw [hafter]
        exact .globals
      · cases flow with
        | normal value => exact hleaves.known
        | giveBack _ | leave => trivial

/-- A program keeps a world sound in which it may run. -/
theorem watchProgram_keeps {setting : Setting} {handed : List Value} (fuel : Nat)
    {program : List Stmt} {w : World} (hw : w.Runs setting handed)
    (hp : program ∈ w.programs) :
    Keeps [globalScope] w (watchProgram setting fuel program) fun value w' =>
      w'.Knows value := by
  have hfits : Frame.top.Fits w (.statements program) := {
    walked := ⟨program, hp, .refl⟩
    mirrors := rfl
    awaits := List.forall_mem_nil _ }
  refine .bind (watchStatements_keeps hw hfits (List.forall_mem_nil _) rfl trivial) ?_
  intro value w' _ _ hs hv
  refine .bind (keeps_flush hs) ?_
  rintro _ _ - - hs' rfl
  exact .pure hs' hv

end TreeScript
