import XPlayer.Lib.Lifecycle
import XPlayer.XEGL

/-!
# The life cycle of surfaces and contexts

Runs of `Init`, `Draw` and `Close` of the one `CXEGL`, for all outcomes of the calls of EGL. A surface or a context is
an object together with the display that it is created for.
-/

namespace XPlayer
open Lifecycle
variable {ι : Type}

def EGLCall.act : EGLCall ι → Ev (EGLObject ι × EGLObject ι)
  | .create d x => .create (d, x)
  | .swapBuffers d x => .use (d, x)
  | .destroy d x => .destroy (d, x)
  | .init _ | .terminate _ => .other

inductive EGLOp (ι : Type)
  | init (i : ι) (o : EGLOutcomes)
  | draw
  | close

/-- A surface is created only while none is live, and a context likewise; only surfaces are swapped. -/
def EGLCall.Apart (a : Ev (EGLObject ι × EGLObject ι)) (y : EGLObject ι × EGLObject ι) : Prop :=
  match a with
  | .create x => y.2.kind ≠ x.2.kind
  | .use x => x.2.kind = .surface
  | _ => True

namespace CXEGL

def step (s : CXEGL ι) : EGLOp ι → CXEGL ι
  | .init i o => (s.init i o).2
  | .draw => s.draw
  | .close => s.close

def run (ops : List (EGLOp ι)) : CXEGL ι := ops.foldl step {}

theorem run_append (ops more : List (EGLOp ι)) : run (ops ++ more) = more.foldl step (run ops) := List.foldl_append ..

/-- The context and the surface, on the display. -/
def objects (s : CXEGL ι) : List (EGLObject ι × EGLObject ι) :=
  s.display.toList.flatMap fun d => (s.context.toList ++ s.surface.toList).map (d, ·)

theorem init_suffix (i : ι) (o : EGLOutcomes) (s : CXEGL ι) : s.close.log <:+ (s.init i o).2.log := by
  have hcs : ∀ (d : EGLObject ι) ok (t : CXEGL ι), t.log <:+ (t.createSurface i d ok).log := by
    intro d ok t
    cases ok
    · exact List.suffix_rfl
    · exact List.suffix_cons ..
  have hcc : ∀ (d : EGLObject ι) ok (t : CXEGL ι), t.log <:+ (t.createContext i d ok).log := by
    intro d ok t
    cases ok
    · exact List.suffix_rfl
    · exact List.suffix_cons ..
  unfold CXEGL.init
  split
  · exact List.suffix_rfl
  · simp only
    split
    · exact List.suffix_rfl
    · split
      · exact List.suffix_cons ..
      · refine List.IsSuffix.trans ?_ ((hcs ..).trans (hcc ..))
        exact List.suffix_cons ..

theorem step_suffix (s : CXEGL ι) (op : EGLOp ι) : s.log <:+ (s.step op).log := by
  cases op with
  | init i o => exact (close_suffix s).trans (init_suffix i o s)
  | draw => exact draw_suffix s
  | close => exact close_suffix s

variable [DecidableEq ι] {i : ι} {d : EGLObject ι} {s : CXEGL ι}

/-- The live objects are the surface and the context; there are none without a display. -/
structure Alive (s : CXEGL ι) : Prop where
  display : s.display = none → s.surface = none ∧ s.context = none
  surface : ∀ x ∈ s.surface, x.kind = .surface
  context : ∀ x ∈ s.context, x.kind = .context
  sound : Sound EGLCall.act EGLCall.Apart (·.2.id) s.next s.log s.objects

theorem alive_init : Alive ({} : CXEGL ι) := ⟨fun _ => ⟨rfl, rfl⟩, nofun, nofun, .nil⟩

/-- `Close` leaves nothing, neither in the fields nor alive. -/
theorem Alive.close (h : s.Alive) : s.close.Alive ∧ s.close.surface = none ∧ s.close.context = none := by
  have hs := h.sound
  unfold objects at hs
  unfold CXEGL.close
  rcases hd : s.display with _ | d
  · obtain ⟨h1, h2⟩ := h.display hd
    exact ⟨h, h1, h2⟩
  · refine ⟨⟨fun _ => ⟨rfl, rfl⟩, nofun, nofun, ?_⟩, rfl, rfl⟩
    refine Sound.other ?_ rfl fun _ _ => trivial
    -- the surface first, then the context
    rcases hsf : s.surface with _ | x <;> rcases hc : s.context with _ | y <;> simp only [hd, hsf, hc] at hs
    · exact hs
    · exact hs.destroy rfl fun _ _ => trivial
    · exact hs.destroy rfl fun _ _ => trivial
    · exact ((hs.perm (.swap ..)).destroy rfl fun _ _ => trivial).destroy rfl fun _ _ => trivial

theorem Alive.draw (h : s.Alive) : s.draw.Alive := by
  unfold CXEGL.draw
  split
  · rename_i d x hd hx
    refine ⟨h.display, h.surface, h.context, h.sound.use rfl (x := (d, x)) ?_ fun _ _ => h.surface x hx⟩
    simp [objects, hd, hx]
  · exact h

/-- `eglCreateWindowSurface` while there is neither a surface nor a context. -/
theorem Alive.createSurface (h : s.Alive) (hd : s.display = some d) (hx : s.surface = none) (hc : s.context = none)
    (ok : Bool) : (s.createSurface i d ok).Alive ∧ (s.createSurface i d ok).display = some d ∧
      (s.createSurface i d ok).context = none := by
  have hs := h.sound
  unfold CXEGL.createSurface
  cases ok with
  | false => exact ⟨⟨fun hn => absurd (hd.symm.trans hn) (Option.some_ne_none d), by rintro _ ⟨⟩, h.context,
      by simpa [objects, hx] using hs⟩, hd, hc⟩
  | true =>
    refine ⟨⟨fun hn => absurd (hd.symm.trans hn) (Option.some_ne_none d), by rintro _ ⟨⟩; rfl, h.context, ?_⟩, hd, hc⟩
    simp only [objects, hd, hx, hc] at hs
    simpa [objects, hd, hc, CXEGL.create] using
      hs.create (e := .create d ⟨i, .surface, s.next⟩) rfl rfl fun y hy => by cases hy

/-- `eglCreateContext` while there is no context. -/
theorem Alive.createContext (h : s.Alive) (hd : s.display = some d) (hc : s.context = none) (ok : Bool) :
    (s.createContext i d ok).Alive := by
  have hs := h.sound
  unfold CXEGL.createContext
  cases ok with
  | false => exact ⟨fun hn => absurd (hd.symm.trans hn) (Option.some_ne_none d), h.surface, by rintro _ ⟨⟩,
      by simpa [objects, hc] using hs⟩
  | true =>
    refine ⟨fun hn => absurd (hd.symm.trans hn) (Option.some_ne_none d), h.surface, by rintro _ ⟨⟩; rfl, ?_⟩
    have hk : ∀ y ∈ s.objects, y.2.kind ≠ .context := by
      intro y hy
      simp only [objects, hd, hc, Option.toList_some, Option.toList_none, List.nil_append, List.flatMap_singleton,
        List.mem_map, Option.mem_toList] at hy
      obtain ⟨x, hx, rfl⟩ := hy
      rw [h.surface x hx]
      decide
    have hs := hs.create (x := (d, EGLObject.mk i .context s.next)) (e := .create d (.mk i .context s.next)) rfl rfl hk
    simpa [objects, hd, hc, CXEGL.create] using hs

theorem Alive.init (h : s.Alive) (i : ι) (o : EGLOutcomes) : (s.init i o).2.Alive := by
  obtain ⟨h, hx, hc⟩ := h.close
  have hnil : s.close.objects = [] := by simp [objects, hx, hc]
  have hs := h.sound
  rw [hnil] at hs
  unfold CXEGL.init
  split
  · exact ⟨fun _ => ⟨hx, hc⟩, h.surface, h.context, hs⟩
  · rename_i d hd
    simp only
    have hset : CXEGL.Alive { s.close with display := some ⟨i, .display, d⟩ } :=
      ⟨fun _ => ⟨hx, hc⟩, h.surface, h.context, by simpa [objects, hx, hc] using hs⟩
    split
    · exact hset
    · have hinit : CXEGL.Alive { s.close with display := some ⟨i, .display, d⟩,
                                              log := .init ⟨i, .display, d⟩ :: s.close.log } :=
        ⟨hset.display, h.surface, h.context, hset.sound.other rfl fun _ _ => trivial⟩
      split
      · exact hinit
      · obtain ⟨h', hd', hc'⟩ := hinit.createSurface (i := i) rfl hx hc o.eglCreateWindowSurface
        exact h'.createContext hd' hc' _

theorem Alive.step (h : s.Alive) (op : EGLOp ι) : (s.step op).Alive := by
  cases op with
  | init i o => exact h.init i o
  | draw => exact h.draw
  | close => exact h.close.1

theorem alive_run (ops : List (EGLOp ι)) : (run ops).Alive := by
  induction ops using List.reverseRecOn with
  | nil => exact alive_init
  | append_singleton ops op ih =>
    rw [run_append]
    exact ih.step op

/-- `Init` and `Close` destroy what is live. -/
theorem Alive.destroyed (h : s.Alive) {op : EGLOp ι} (hop : op ≠ .draw) {y : EGLObject ι × EGLObject ι}
    (hy : y ∈ created EGLCall.act s.log) : y ∈ Lifecycle.destroyed EGLCall.act (s.step op).log := by
  obtain ⟨hc, hx, hcx⟩ := h.close
  have hm : y ∈ Lifecycle.destroyed EGLCall.act s.close.log :=
    hc.sound.mem_destroyed (((close_suffix s).sublist.filterMap _).subset hy) (by simp [objects, hx, hcx])
  cases op with
  | init i o => exact ((init_suffix i o s).sublist.filterMap _).subset hm
  | draw => exact absurd rfl hop
  | close => exact hm

/-- At every moment of every run at most one surface and one context are live; only a live surface is swapped; what is
created is destroyed by the next `Init` or `Close`, on its display and never again; after `Close` nothing is live. -/
theorem life_cycle (ops : List (EGLOp ι)) :
    (∀ old, old <:+ (run ops).log → ∀ k, ((live EGLCall.act old).filter (·.2.kind = k)).length ≤ 1) ∧
    (∀ d x old, .swapBuffers d x :: old <:+ (run ops).log → x.kind = .surface ∧ (d, x) ∈ live EGLCall.act old) ∧
    (∀ op more d x, op ≠ .draw → .create d x ∈ (run ops).log →
      (Lifecycle.destroyed EGLCall.act (run (ops ++ op :: more)).log).filter (·.2 = x) = [(d, x)]) ∧
    live EGLCall.act (run (ops ++ [.close])).log = [] := by
  have hs := (alive_run ops).sound
  refine ⟨fun old ho k => ?_, fun d x old ho => ?_, fun op more d x hop hx => ?_, ?_⟩
  · exact (hs.suffix ho).kind_le_one (fun y => y.2.kind) (fun _ _ h => h) k
  · have hx : (d, x) ∈ live EGLCall.act old := hs.held _ _ ho
    exact ⟨hs.ok _ _ ho _ hx, hx⟩
  · have hm : (d, x) ∈ created EGLCall.act (run ops).log := List.mem_filterMap.mpr ⟨_, hx, rfl⟩
    have hd := (alive_run ops).destroyed hop hm
    have hl : ((run ops).step op).log <:+ (run (ops ++ op :: more)).log := by
      rw [run_append]
      exact foldl_suffix step_suffix _ more
    refine (alive_run _).sound.filter_destroyed ((hl.sublist.filterMap _).subset hd) (by simp) fun y hy => ?_
    rw [of_decide_eq_true hy]
  · obtain ⟨hc, hx, hcx⟩ := (alive_run ops).close
    rw [run_append]
    refine List.Perm.eq_nil (hc.sound.live.trans ?_)
    simp [objects, hx, hcx]

end CXEGL

end XPlayer
