import XPlayer.Lib.History

/-!
# `CXEGL`

`Init`, `Draw` and `Close` on `display`, `surface` and `context`, for every outcome of the calls of EGL. There is one
`CXEGL` in the process (`XEGL::Get`); a display, a surface or a context remembers whose texture (`ι`) asked for it.
`log` has the calls that create, use and destroy them, newest first.
-/

namespace XPlayer

inductive EGLKind
  | display
  | surface
  | context
  deriving DecidableEq

structure EGLObject (ι : Type) where
  owner : ι
  kind : EGLKind
  id : ℕ
  deriving DecidableEq

/-- A call of EGL on the display `d`. -/
inductive EGLCall (ι : Type)
  | init (d : EGLObject ι)
  | create (d x : EGLObject ι)
  | swapBuffers (d x : EGLObject ι)
  | destroy (d x : EGLObject ι)
  | terminate (d : EGLObject ι)
  deriving DecidableEq

/-- What a call is about. -/
def EGLCall.object {ι : Type} : EGLCall ι → EGLObject ι
  | .init d | .terminate d => d
  | .create _ x | .swapBuffers _ x | .destroy _ x => x

structure CXEGL (ι : Type) where
  display : Option (EGLObject ι) := none
  surface : Option (EGLObject ι) := none
  context : Option (EGLObject ι) := none
  next : ℕ := 0
  log : List (EGLCall ι) := []
  deriving DecidableEq

/-- The outcomes of the calls in `Init`. -/
structure EGLOutcomes where
  /-- The display, if `eglGetDisplay` finds one. -/
  eglGetDisplay : Option ℕ := some 0
  eglInitialize : Bool := true
  eglChooseConfig : Bool := true
  eglCreateWindowSurface : Bool := true
  eglCreateContext : Bool := true
  eglMakeCurrent : Bool := true

namespace CXEGL
open History (Grows grows_append)
variable {ι : Type}

def draw (s : CXEGL ι) : CXEGL ι :=
  match s.display, s.surface with
  | some d, some x => { s with log := .swapBuffers d x :: s.log }
  | _, _ => s

def close (s : CXEGL ι) : CXEGL ι :=
  match s.display with
  | none => s
  | some d =>
    { next := s.next,
      log := .terminate d :: s.context.toList.map (.destroy d) ++ s.surface.toList.map (.destroy d) ++ s.log }

/-- A new surface or context of `i`. -/
def create (i : ι) (d : EGLObject ι) (k : EGLKind) (s : CXEGL ι) : EGLObject ι × CXEGL ι :=
  let x : EGLObject ι := ⟨i, k, s.next⟩
  (x, { s with next := s.next + 1, log := .create d x :: s.log })

/-- `surface = eglCreateWindowSurface(…)`. -/
def createSurface (i : ι) (d : EGLObject ι) (ok : Bool) (s : CXEGL ι) : CXEGL ι :=
  if ok then
    let (x, s) := s.create i d .surface
    { s with surface := some x }
  else { s with surface := none }

/-- `context = eglCreateContext(…)`. -/
def createContext (i : ι) (d : EGLObject ι) (ok : Bool) (s : CXEGL ι) : CXEGL ι :=
  if ok then
    let (x, s) := s.create i d .context
    { s with context := some x }
  else { s with context := none }

/-- `Init` for a texture of `i`. -/
def init (i : ι) (o : EGLOutcomes) (s : CXEGL ι) : Bool × CXEGL ι :=
  let s := s.close
  match o.eglGetDisplay with
  | none => (false, { s with display := none })
  | some h =>
    let d : EGLObject ι := ⟨i, .display, h⟩
    let s := { s with display := some d }
    if o.eglInitialize = false then (false, s)
    else
      let s := { s with log := .init d :: s.log }
      if o.eglChooseConfig = false then (false, s)
      else
        -- `EGL_NO_SURFACE` is not tested
        let s := s.createSurface i d o.eglCreateWindowSurface
        let s := s.createContext i d o.eglCreateContext
        (o.eglCreateContext && o.eglMakeCurrent, s)

/-! ### Whose objects are called -/

/-- The surface and the context are of the player whose display it is. -/
def Tied (s : CXEGL ι) : Prop :=
  (∀ x ∈ s.surface, ∃ d ∈ s.display, x.owner = d.owner) ∧ ∀ x ∈ s.context, ∃ d ∈ s.display, x.owner = d.owner

/-- From `s` to `t` only objects of `i` were called. -/
def Calls (i : ι) (s t : CXEGL ι) : Prop := Grows (fun c => c.object.owner = i) s.log t.log

variable {i : ι} {o : EGLOutcomes} {s : CXEGL ι}

theorem close_null (h : s.Tied) : s.close.display = none ∧ s.close.surface = none ∧ s.close.context = none := by
  unfold close
  split
  · rename_i hd
    have hnone : ∀ x : Option (EGLObject ι), (∀ y ∈ x, ∃ d ∈ s.display, y.owner = d.owner) → x = none := by
      intro x hx
      rw [Option.eq_none_iff_forall_not_mem]
      intro y hy
      obtain ⟨d, hm, -⟩ := hx y hy
      rw [hd] at hm
      cases hm
    exact ⟨hd, hnone _ h.1, hnone _ h.2⟩
  · exact ⟨rfl, rfl, rfl⟩

theorem close_tied (h : s.Tied) : s.close.Tied := by
  obtain ⟨h1, h2, h3⟩ := close_null h
  unfold Tied
  rw [h2, h3]
  exact ⟨nofun, nofun⟩

theorem close_close (h : s.Tied) : s.close.close = s.close := by
  obtain ⟨hd, -⟩ := close_null h
  generalize s.close = t at hd
  unfold close
  rw [hd]

theorem close_suffix (s : CXEGL ι) : s.log <:+ s.close.log := by
  unfold close
  split
  · exact List.suffix_rfl
  · exact List.suffix_append _ _

/-- `Close` calls only objects of `i` if and only if the display is of no other player. -/
theorem close_calls (h : s.Tied) (i : ι) : Calls i s s.close ↔ ∀ d ∈ s.display, d.owner = i := by
  unfold Calls close
  rcases hd : s.display with _ | d
  · exact iff_of_true (Grows.refl _ _) nofun
  · obtain ⟨h1, h2⟩ := h
    simp only [hd] at h1 h2
    simp only [List.cons_append]
    rw [← List.cons_append, grows_append]
    simp only [List.forall_mem_cons, List.forall_mem_append, List.forall_mem_map, Option.mem_toList]
    constructor
    · rintro ⟨hd', -⟩ _ ⟨⟩
      exact hd'
    · intro hd'
      have hx : ∀ x : EGLObject ι, (∃ e ∈ some d, x.owner = e.owner) → x.owner = i := by
        rintro x ⟨e, he, ho⟩
        exact ho.trans (hd' e he)
      exact ⟨hd' d rfl, fun x hm => hx x (h2 x hm), fun x hm => hx x (h1 x hm)⟩

theorem createSurface_of (i : ι) (d : EGLObject ι) (ok : Bool) (s : CXEGL ι) :
    (∀ x ∈ (s.createSurface i d ok).surface, x.owner = i) ∧ (s.createSurface i d ok).display = s.display ∧
      Calls i s (s.createSurface i d ok) := by
  cases ok with
  | false => exact ⟨nofun, rfl, Grows.refl _ _⟩
  | true => exact ⟨by rintro _ ⟨⟩; rfl, rfl, [_], rfl, by simp [EGLCall.object]⟩

theorem createContext_of (i : ι) (d : EGLObject ι) (ok : Bool) (s : CXEGL ι) :
    (∀ x ∈ (s.createContext i d ok).context, x.owner = i) ∧ (s.createContext i d ok).display = s.display ∧
      (s.createContext i d ok).surface = s.surface ∧ Calls i s (s.createContext i d ok) := by
  cases ok with
  | false => exact ⟨nofun, rfl, rfl, Grows.refl _ _⟩
  | true => exact ⟨by rintro _ ⟨⟩; rfl, rfl, rfl, [_], rfl, by simp [EGLCall.object]⟩

/-- After `Close`, `Init` of `i` creates only objects of `i`. -/
theorem init_of (i : ι) (o : EGLOutcomes) (h : s.Tied) : (s.init i o).2.Tied ∧ Calls i s.close (s.init i o).2 ∧
    ∀ d ∈ (s.init i o).2.display, d.owner = i := by
  obtain ⟨h1, h2, h3⟩ := close_null h
  have hnull : ∀ t : CXEGL ι, t.surface = none → t.context = none → t.Tied := by
    intro t hs hc
    unfold Tied
    rw [hs, hc]
    exact ⟨nofun, nofun⟩
  unfold init
  split
  · exact ⟨hnull _ h2 h3, Grows.refl _ _, nofun⟩
  · rename_i d hd
    simp only
    split
    · exact ⟨hnull _ h2 h3, Grows.refl _ _, by rintro _ ⟨⟩; rfl⟩
    · split
      · exact ⟨hnull _ h2 h3, ⟨[_], rfl, by simp [EGLCall.object]⟩, by rintro _ ⟨⟩; rfl⟩
      · obtain ⟨hs, hds, hcs⟩ := createSurface_of i ⟨i, .display, d⟩ o.eglCreateWindowSurface
          { s.close with display := some ⟨i, .display, d⟩, log := .init ⟨i, .display, d⟩ :: s.close.log }
        generalize createSurface i _ _ _ = t at hs hds hcs ⊢
        obtain ⟨hc, hdc, hss, hcc⟩ := createContext_of i ⟨i, .display, d⟩ o.eglCreateContext t
        have hd : (t.createContext i ⟨i, .display, d⟩ o.eglCreateContext).display = some ⟨i, .display, d⟩ :=
          hdc.trans hds
        refine ⟨⟨fun x hx => ⟨_, hd, ?_⟩, fun x hx => ⟨_, hd, hc x hx⟩⟩, ?_, fun e he => ?_⟩
        · rw [hss] at hx
          exact hs x hx
        · refine Grows.trans (Grows.trans ⟨[_], rfl, ?_⟩ hcs) hcc
          simp [EGLCall.object]
        · cases hd.symm.trans he
          rfl

theorem draw_tied (h : s.Tied) : s.draw.Tied := by
  unfold draw
  split <;> exact h

theorem draw_suffix (s : CXEGL ι) : s.log <:+ s.draw.log := by
  unfold draw
  split
  · exact List.suffix_cons ..
  · exact List.suffix_rfl

/-- `Draw` calls only objects of `i` if and only if there is no surface, or the display is of no other player. -/
theorem draw_calls (h : s.Tied) (i : ι) :
    Calls i s s.draw ↔ (s.surface ≠ none → ∀ d ∈ s.display, d.owner = i) := by
  unfold Calls draw
  rcases hs : s.surface with _ | x
  · refine iff_of_true ?_ nofun
    cases s.display <;> exact Grows.refl _ _
  · obtain ⟨d, hd, ho⟩ := h.1 x hs
    rw [Option.mem_def] at hd
    simp only [hd]
    rw [← List.singleton_append, grows_append]
    simp only [List.forall_mem_singleton, EGLCall.object]
    constructor
    · rintro hx - _ ⟨⟩
      exact ho.symm.trans hx
    · exact fun hx => ho.trans (hx nofun d rfl)

end CXEGL

end XPlayer
