import BranchText.Proofs.Render.Ensures

/-!
# Pairs of renders

Two renders that differ in what their states hold may still go on in step. `Paired` states that for
one part of each: from related states both end well, with related values, or both fail for the same
reason, and the states stay related. There is one rule for each way in which renders are put
together.
-/

namespace BranchText

namespace Rendering

variable {α β γ δ : Type} {related : RenderState → RenderState → Prop}

/-- Both parts ended well, with related values, or failed for the same reason. -/
inductive EndAlike (related : RenderState → RenderState → Prop) (same : α → β → Prop) :
    Except RenderError α × RenderState → Except RenderError β × RenderState → Prop
  | well {value : α} {other : β} {left right : RenderState} (values : same value other)
    (states : related left right) : EndAlike related same (.ok value, left) (.ok other, right)
  | failed {error : RenderError} {left right : RenderState} (states : related left right) :
    EndAlike related same (.error error, left) (.error error, right)

theorem EndAlike.imp {same closer : α → β → Prop} {first : Except RenderError α × RenderState}
    {second : Except RenderError β × RenderState} (ends : EndAlike related closer first second)
    (weaker : ∀ value other, closer value other → same value other) :
    EndAlike related same first second := by
  cases ends with
  | well values states => exact .well (weaker _ _ values) states
  | failed states => exact .failed states

/-- From related states the parts end alike. -/
def Paired (related : RenderState → RenderState → Prop) (same : α → β → Prop) (part : Rendering α)
    (twin : Rendering β) : Prop :=
  ∀ left right, related left right → EndAlike related same (part.run left) (twin.run right)

variable {same : α → β → Prop} {close : γ → δ → Prop}

theorem paired_pure {value : α} {other : β} (here : same value other) :
    Paired related same (pure value) (pure other) :=
  fun _ _ states => .well here states

theorem paired_throw (error : RenderError) :
    Paired related same (throw error : Rendering α) (throw error : Rendering β) :=
  fun _ _ states => .failed states

/-- Parts that follow one another. -/
theorem Paired.bind {part : Rendering γ} {twin : Rendering δ} {next : γ → Rendering α}
    {following : δ → Rendering β} (first : Paired related close part twin)
    (second : ∀ value other, close value other →
      Paired related same (next value) (following other)) :
    Paired related same (part >>= next) (twin >>= following) := by
  intro left right states
  rw [run_bind, run_bind]
  have ends := first left right states
  generalize part.run left = outcome at ends
  generalize twin.run right = ending at ends
  cases ends with
  | well values states => exact second _ _ values _ _ states
  | failed states => exact .failed states

/-- Parts whose values are only changed behind them. -/
theorem Paired.map {part : Rendering γ} {twin : Rendering δ} {change : γ → α} {other : δ → β}
    (first : Paired related close part twin)
    (changed : ∀ value found, close value found → same (change value) (other found)) :
    Paired related same (part >>= fun value => pure (change value))
      (twin >>= fun value => pure (other value)) :=
  first.bind fun _ _ values => paired_pure (changed _ _ values)

theorem paired_modify {change other : RenderState → RenderState}
    (keeps : ∀ left right, related left right → related (change left) (other right)) :
    Paired related (fun _ _ => True) (modify change : Rendering PUnit)
      (modify other : Rendering PUnit) :=
  fun left right states => .well trivial (keeps left right states)

theorem paired_set {left right : RenderState} (states : related left right) :
    Paired related (fun _ _ => True) (set left : Rendering PUnit) (set right : Rendering PUnit) :=
  fun _ _ _ => .well trivial states

/-- Parts that go on with what they find in the state. -/
theorem paired_get {next : RenderState → Rendering α} {following : RenderState → Rendering β}
    (found : ∀ left right, related left right →
      Paired related same (next left) (following right)) :
    Paired related same (get >>= next) (get >>= following) :=
  fun left right states => found left right states left right states

/-- Items and what they are changed to, worked off with equal results. -/
theorem paired_foldlM (items : List γ) {change : γ → δ} {part : α → γ → Rendering α}
    {twin : α → δ → Rendering α}
    (each : ∀ value, ∀ item ∈ items, Paired related Eq (part value item) (twin value (change item)))
    (start : α) :
    Paired related Eq (items.foldlM part start) ((items.map change).foldlM twin start) := by
  induction items generalizing start with
  | nil => exact paired_pure rfl
  | cons item rest ih =>
    rw [List.map_cons, List.foldlM_cons, List.foldlM_cons]
    refine (each start item (List.mem_cons_self ..)).bind ?_
    rintro value _ rfl
    exact ih (fun value item member => each value item (List.mem_cons_of_mem _ member)) value

end Rendering

end BranchText
