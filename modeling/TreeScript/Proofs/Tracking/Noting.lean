import TreeScript.Evaluation
import Mathlib.Tactic.Common

/-!
# Steps that take notes

* `Noting` — a step of a running program that takes notes as it goes
* `Noting.Shadows` — without its notes it is a given step
* `Upkeep` — what steps keep: what is sound of notes and machine, how both may change, and
  what the notes of a step say that runs out of fuel
* `Upkeep.Keeps` — a step keeps it, with a result as told
-/

namespace TreeScript

/-- A step of a running program that takes notes as it goes. -/
def Noting (N : Type) (α : Type) := N → Machine → Outcome α × N

namespace Noting

variable {N α β : Type}

/-! ## Sequencing -/

/-- The step that changes nothing. -/
protected def pure (value : α) : Noting N α :=
  fun notes machine => (.done value machine, notes)

/-- One step and then another, which a failure leaves out. -/
protected def bind (first : Noting N α) (next : α → Noting N β) : Noting N β :=
  fun notes machine =>
    match first notes machine with
    | (.done value machine, notes) => next value notes machine
    | (.failed failure machine, notes) => (.failed failure machine, notes)
    | (.outOfFuel, notes) => (.outOfFuel, notes)

instance : Monad (Noting N) where
  pure := Noting.pure
  bind := Noting.bind

/-- A step that takes no notes. -/
def lift (step : Run α) : Noting N α :=
  fun notes machine => (step machine, notes)

/-- Takes a note, and goes on. -/
def note (take : N → Machine → N) : Noting N Unit :=
  fun notes machine => (.done () machine, take notes machine)

/-- Looks something up in the notes. -/
def look (find : N → α) : Noting N α :=
  fun notes machine => (.done (find notes) machine, notes)

/-- Runs a step and makes a diagnostic that stops it part of its result. -/
def attempt (step : Noting N α) : Noting N (Except Diagnostic α) :=
  fun notes machine =>
    match step notes machine with
    | (.done value machine, notes) => (.done (.ok value) machine, notes)
    | (.failed (.diagnosed diagnostic) machine, notes) => (.done (.error diagnostic) machine, notes)
    | (.failed (.broken cause) machine, notes) => (.failed (.broken cause) machine, notes)
    | (.outOfFuel, notes) => (.outOfFuel, notes)

/-! ## Without the notes -/

/-- A step that does the same as another one, apart from its notes. -/
def Shadows (noting : Noting N α) (step : Run α) : Prop :=
  ∀ notes machine, (noting notes machine).1 = step machine

namespace Shadows

theorem pure (a : α) : Shadows (Pure.pure a : Noting N α) (Pure.pure a) :=
  fun _ _ => rfl

theorem lift (step : Run α) : Shadows (Noting.lift step : Noting N α) step :=
  fun _ _ => rfl

theorem bind {first : Noting N α} {step : Run α} {next : α → Noting N β} {rest : α → Run β}
    (h : Shadows first step) (hn : ∀ a, Shadows (next a) (rest a)) :
    Shadows (first >>= next) (step >>= rest) := by
  intro notes machine
  show (Noting.bind first next notes machine).1 = Run.bind step rest machine
  have hs := h notes machine
  unfold Noting.bind Run.bind
  rw [← hs]
  rcases first notes machine with ⟨_ | _ | _, notes⟩
  · exact hn _ _ _
  · rfl
  · rfl

theorem noted {take : N → Machine → N} {next : Noting N β} {rest : Run β}
    (h : Shadows next rest) : Shadows (Noting.note take >>= fun _ => next) rest :=
  fun _ machine => h _ machine

theorem looked {find : N → α} {next : α → Noting N β} {rest : Run β}
    (h : ∀ a, Shadows (next a) rest) : Shadows (Noting.look find >>= next) rest :=
  fun _ machine => h _ _ machine

theorem attempt {noting : Noting N α} {step : Run α} (h : Shadows noting step) :
    Shadows (Noting.attempt noting) (Run.attempt step) := by
  intro notes machine
  have hs := h notes machine
  unfold Noting.attempt Run.attempt
  rw [← hs]
  rcases noting notes machine with ⟨_ | ⟨_ | _, _⟩ | _, notes⟩ <;> rfl

end Shadows

end Noting

/-! ## What steps keep -/

/-- What steps keep: what is sound of the notes and the machine, how both may change, and
what the notes of a step say that runs out of fuel. -/
structure Upkeep (N : Type) where
  Sound : N → Machine → Prop
  Grows : N → Machine → N → Machine → Prop
  Told : N → Prop

namespace Upkeep

variable {N α β : Type}

/-- What is sound is told, and growing is a preorder. -/
structure Lawful (U : Upkeep N) : Prop where
  told : ∀ {n m}, U.Sound n m → U.Told n
  refl : ∀ n m, U.Grows n m n m
  trans : ∀ {n m n' m' n'' m''}, U.Grows n m n' m' → U.Grows n' m' n'' m'' →
    U.Grows n m n'' m''

/-- A step ends soundly, with a result as told, or fails soundly, or runs out of fuel. -/
def Ends (U : Upkeep N) (n : N) (m : Machine) (post : α → N → Machine → Prop) :
    Outcome α × N → Prop
  | (.done value m', n') => U.Sound n' m' ∧ U.Grows n m n' m' ∧ post value n' m'
  | (.failed _ m', n') => U.Sound n' m' ∧ U.Grows n m n' m'
  | (.outOfFuel, n') => U.Told n'

/-- A step keeps notes and machine sound. -/
def Keeps (U : Upkeep N) (n : N) (m : Machine) (step : Noting N α)
    (post : α → N → Machine → Prop) : Prop :=
  U.Ends n m post (step n m)

variable {U : Upkeep N} {n n' : N} {m m' : Machine}

theorem Ends.imp {post post' : α → N → Machine → Prop} {result : Outcome α × N}
    (h : U.Ends n m post result)
    (hp : ∀ a n' m', U.Sound n' m' → U.Grows n m n' m' → post a n' m' → post' a n' m') :
    U.Ends n m post' result := by
  rcases result with ⟨⟨a, m'⟩ | ⟨f, m'⟩ | _, n'⟩
  · exact ⟨h.1, h.2.1, hp a n' m' h.1 h.2.1 h.2.2⟩
  · exact h
  · exact h

theorem Ends.after {post : α → N → Machine → Prop} {result : Outcome α × N} (hu : U.Lawful)
    (h : U.Ends n' m' post result) (hg : U.Grows n m n' m') : U.Ends n m post result := by
  rcases result with ⟨⟨a, m''⟩ | ⟨f, m''⟩ | _, n''⟩
  · exact ⟨h.1, hu.trans hg h.2.1, h.2.2⟩
  · exact ⟨h.1, hu.trans hg h.2⟩
  · exact h

namespace Keeps

variable {post post' : α → N → Machine → Prop}

theorem of_done {step : Noting N α} {a : α} (h : step n m = (.done a m', n'))
    (hs : U.Sound n' m') (hg : U.Grows n m n' m') (hp : post a n' m') :
    U.Keeps n m step post := by
  rw [Keeps, h]
  exact ⟨hs, hg, hp⟩

theorem of_failed {step : Noting N α} {f : Failure} (h : step n m = (.failed f m', n'))
    (hs : U.Sound n' m') (hg : U.Grows n m n' m') : U.Keeps n m step post := by
  rw [Keeps, h]
  exact ⟨hs, hg⟩

theorem pure (hu : U.Lawful) {a : α} (hs : U.Sound n m) (hp : post a n m) :
    U.Keeps n m (Pure.pure a) post :=
  of_done rfl hs (hu.refl n m) hp

theorem stuck (hu : U.Lawful) (hs : U.Sound n m) :
    U.Keeps n m (Noting.lift Run.stuck) post :=
  hu.told hs

theorem fault (hu : U.Lawful) (hs : U.Sound n m) (token : Token) (cause : RunFault) :
    U.Keeps n m (Noting.lift (Run.fault token cause)) post :=
  of_failed rfl hs (hu.refl n m)

theorem imp {step : Noting N α} (h : U.Keeps n m step post)
    (hp : ∀ a n' m', U.Sound n' m' → U.Grows n m n' m' → post a n' m' → post' a n' m') :
    U.Keeps n m step post' :=
  Ends.imp h hp

theorem bind {first : Noting N α} {next : α → Noting N β} {middle : α → N → Machine → Prop}
    {post : β → N → Machine → Prop} (hu : U.Lawful) (h : U.Keeps n m first middle)
    (hn : ∀ a n' m', U.Sound n' m' → U.Grows n m n' m' → middle a n' m' →
      U.Keeps n' m' (next a) post) : U.Keeps n m (first >>= next) post := by
  show U.Ends n m post (Noting.bind first next n m)
  unfold Keeps at h
  unfold Noting.bind
  generalize first n m = result at h
  rcases result with ⟨⟨a, m'⟩ | ⟨f, m'⟩ | _, n'⟩
  · exact Ends.after hu (hn a n' m' h.1 h.2.1 h.2.2) h.2.1
  · exact h
  · exact h

/-- A step without notes is kept piece by piece. -/
theorem lift_bind {first : Run α} {next : α → Run β} {middle : α → N → Machine → Prop}
    {post : β → N → Machine → Prop} (hu : U.Lawful) (h : U.Keeps n m (Noting.lift first) middle)
    (hn : ∀ a n' m', U.Sound n' m' → U.Grows n m n' m' → middle a n' m' →
      U.Keeps n' m' (Noting.lift (next a)) post) :
    U.Keeps n m (Noting.lift (first >>= next)) post := by
  have hb := h.bind hu hn
  show U.Ends n m post (Run.bind first next m, n)
  replace hb : U.Ends n m post
    (Noting.bind (Noting.lift first) (fun a => Noting.lift (next a)) n m) := hb
  unfold Noting.bind Noting.lift at hb
  unfold Run.bind
  cases h : first m <;> simpa only [h] using hb

/-- A diagnostic that is caught leaves all sound behind, like any result. -/
theorem attempt {step : Noting N α} (h : U.Keeps n m step post) :
    U.Keeps n m (Noting.attempt step) fun result n' m' =>
      ∀ a, result = .ok a → post a n' m' := by
  unfold Keeps at h ⊢
  unfold Noting.attempt
  generalize step n m = result at h
  rcases result with ⟨⟨a, m'⟩ | ⟨diagnostic | cause, m'⟩ | _, n'⟩
  · refine ⟨h.1, h.2.1, fun b hb => ?_⟩
    cases hb
    exact h.2.2
  · exact ⟨h.1, h.2, nofun⟩
  · exact h
  · exact h

end Keeps

end Upkeep

end TreeScript
