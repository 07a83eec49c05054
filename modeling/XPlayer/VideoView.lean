import XPlayer.Lib.System
import Mathlib.Logic.Function.Basic

/-!
# `GLVideoView`

`Render` by the video decoder, `Close` by any threads and `SetRender`, with each access of `view` and `txt` and each
call of an `XTexture` as one step. `Close` holds `mux` while it drops the texture, but `Render` does not take it:
it may read `txt` after the texture was dropped, or call a texture that is dropped after it has read `txt`.
`TxtStable` is the condition on the steps of a run under which neither happens (`render_live`).
-/

namespace XPlayer

/-- Where `Render` is. -/
inductive RenderPc
  | idle
  /-- Before `if (!view)`. -/
  | viewTest
  /-- Before `if (!txt)`. -/
  | txtTest
  | create
  /-- Before the write of the new texture to `txt`. -/
  | store (n : ℕ)
  /-- Before the read of `view` for `Init`. -/
  | initView
  /-- Before the read of `txt` for `Init`. -/
  | initTxt
  | init (n : ℕ)
  /-- Before the read of `txt` for `Draw`. -/
  | drawTxt
  | draw (n : ℕ)
  /-- `txt` was null at its use: the process crashes. -/
  | null
  deriving DecidableEq

/-- Where a `Close` is. -/
inductive ClosePc
  | idle
  | lock
  /-- Before `if (txt)`. -/
  | test
  /-- Before the read of `txt` for `Drop`. -/
  | read
  | drop (n : ℕ)
  /-- Before `txt = 0`. -/
  | clear
  | unlock
  deriving DecidableEq

inductive ViewEvent
  | create (n : ℕ)
  | init (n : ℕ)
  | draw (n : ℕ)
  | drop (n : ℕ)
  deriving DecidableEq

structure VideoView where
  view : Bool := false
  txt : Option ℕ := none
  /-- The `Close` that holds `mux`. -/
  mux : Option ℕ := none
  render : RenderPc := .idle
  close : ℕ → ClosePc := fun _ => .idle
  /-- The number of textures created so far. -/
  created : ℕ := 0
  log : List ViewEvent := []

inductive ViewAct
  /-- `win` tells whether the window is not null. -/
  | setRender (win : Bool)
  | render
  | stepRender
  | close (k : ℕ)
  | stepClose (k : ℕ)

namespace VideoView

def emit (s : VideoView) (e : ViewEvent) : VideoView := { s with log := e :: s.log }

def setClose (s : VideoView) (k : ℕ) (pc : ClosePc) : VideoView := { s with close := Function.update s.close k pc }

/-- One step of `Render`. -/
def renderStep (s : VideoView) : Option VideoView :=
  match s.render with
  | .idle | .null => none
  | .viewTest => some { s with render := if s.view then .txtTest else .idle }
  | .txtTest => some { s with render := if s.txt = none then .create else .drawTxt }
  | .create => some { s.emit (.create s.created) with created := s.created + 1, render := .store s.created }
  | .store n => some { s with txt := some n, render := .initView }
  | .initView => some { s with render := .initTxt }
  | .initTxt => some { s with render := match s.txt with | none => .null | some n => .init n }
  | .init n => some { s.emit (.init n) with render := .drawTxt }
  | .drawTxt => some { s with render := match s.txt with | none => .null | some n => .draw n }
  | .draw n => some { s.emit (.draw n) with render := .idle }

/-- One step of the `Close` numbered `k`. -/
def closeStep (k : ℕ) (s : VideoView) : Option VideoView :=
  match s.close k with
  | .idle => none
  | .lock => if s.mux = none then some ({ s with mux := some k }.setClose k .test) else none
  | .test => some (s.setClose k (if s.txt = none then .unlock else .read))
  | .read => s.txt.map fun n => s.setClose k (.drop n)
  | .drop n => some ((s.emit (.drop n)).setClose k .clear)
  | .clear => some ({ s with txt := none }.setClose k .unlock)
  | .unlock => some ({ s with mux := none }.setClose k .idle)

def step : ViewAct → VideoView → Option VideoView
  | .setRender win, s => some { s with view := win }
  | .render, s => if s.render = .idle then some { s with render := .viewTest } else none
  | .stepRender, s => s.renderStep
  | .close k, s => if s.close k = .idle then some (s.setClose k .lock) else none
  | .stepClose k, s => s.closeStep k

/-- The texture `n` is in use: it was created and not dropped. -/
def Live (s : VideoView) (n : ℕ) : Prop := n < s.created ∧ .drop n ∉ s.log

end VideoView

/-- The view from its construction. -/
def videoView : Sys VideoView ViewAct where
  init s := s = {}
  step := VideoView.step

/-- The texture that an event calls in `Render`. -/
def ViewEvent.called : ViewEvent → Option ℕ
  | .init n | .draw n => some n
  | _ => none

/-- `Init` and `Draw` are called on textures that have not been dropped. -/
def CallsLive : List ViewEvent → Prop
  | [] => True
  | e :: log => (∀ n, e.called = some n → .drop n ∉ log) ∧ CallsLive log

/-- The texture that the next step of a `Close` drops. -/
def ClosePc.dropping : ClosePc → Option ℕ
  | .drop n => some n
  | _ => none

/-- The condition on the steps of a run: no texture is dropped that `Render` is about to call `Init` or `Draw` on, and
`Render` does not read `txt` for such a call while a `Close` is between `Drop` and `txt = 0`. -/
def TxtStable (a : ViewAct) (s : VideoView) : Prop :=
  match a with
  | .stepClose k => ∀ n ∈ (s.close k).dropping, s.render ≠ .init n ∧ s.render ≠ .draw n
  | .stepRender => s.render = .initTxt ∨ s.render = .drawTxt → ∀ k ∈ s.mux, s.close k ≠ .clear
  | _ => True

instance (a : ViewAct) (s : VideoView) : Decidable (TxtStable a s) :=
  match a with
  | .stepClose k => inferInstanceAs (Decidable (∀ n ∈ (s.close k).dropping, _))
  | .stepRender => inferInstanceAs (Decidable (_ → ∀ k ∈ s.mux, _))
  | .setRender _ | .render | .close _ => inferInstanceAs (Decidable True)

/-- Between `mux.lock()` and `mux.unlock()`. -/
def ClosePc.inside : ClosePc → Bool
  | .idle | .lock => false
  | _ => true

/-- The texture that an event drops. -/
def ViewEvent.dropped : ViewEvent → Option ℕ
  | .drop n => some n
  | _ => none

namespace VideoView
variable {s s' : VideoView}

theorem mem_dropped {n : ℕ} {log : List ViewEvent} : n ∈ log.filterMap ViewEvent.dropped ↔ .drop n ∈ log := by
  rw [List.mem_filterMap]
  constructor
  · rintro ⟨e, he, hd⟩
    cases e <;> cases hd
    exact he
  · exact fun h => ⟨_, h, rfl⟩

/-- Whoever is in `Close` holds `mux`, `txt` is the only texture in use, up to one that `Render` is about to store,
and a dropped texture is in `txt` only until the `Close` that dropped it goes on. -/
structure Inv (s : VideoView) : Prop where
  mux : ∀ k, s.mux = some k ↔ (s.close k).inside = true
  read : ∀ k, s.close k = .read → s.txt ≠ none
  drop : ∀ k n, s.close k = .drop n → s.txt = some n ∧ .drop n ∉ s.log
  clear : ∀ k, s.close k = .clear → ∃ n, s.txt = some n ∧ .drop n ∈ s.log
  txt : ∀ n, s.txt = some n → n < s.created ∧ (.drop n ∈ s.log → ∃ k, s.close k = .clear)
  create : s.render = .create → s.txt = none
  store : ∀ n, s.render = .store n → s.txt = none ∧ s.Live n
  live : ∀ n, s.Live n → s.txt = some n ∨ s.render = .store n
  fresh : ∀ n, .drop n ∈ s.log → n < s.created
  once : (s.log.filterMap ViewEvent.dropped).Nodup
  call : ∀ n, s.render = .init n ∨ s.render = .draw n → .drop n ∉ s.log
  calls : CallsLive s.log

/-- Only one `Close` is past its `mux.lock()`. -/
theorem Inv.inside_unique (h : Inv s) {k k' : ℕ} (hk : (s.close k).inside = true) (hk' : (s.close k').inside = true) :
    k' = k :=
  Option.some.inj (((h.mux k').mpr hk').symm.trans ((h.mux k).mpr hk))

/-- `Render` goes on to a place where it has no new texture. -/
theorem Inv.moveRender (h : Inv s) {pc : RenderPc} (hs : ∀ n, s.render ≠ .store n) (hs' : ∀ n, pc ≠ .store n)
    (hc : pc = .create → s.txt = none) (hcall : ∀ n, pc = .init n ∨ pc = .draw n → .drop n ∉ s.log) :
    Inv { s with render := pc } where
  mux := h.mux
  read := h.read
  drop := h.drop
  clear := h.clear
  txt := h.txt
  create := hc
  store n hn := absurd hn (hs' n)
  live n hn := .inl ((h.live n hn).resolve_right (hs n))
  fresh := h.fresh
  once := h.once
  call := hcall
  calls := h.calls

theorem Inv.called (h : Inv s) {e : ViewEvent} (hd : e.dropped = none) (he : ∀ n, e.called = some n → .drop n ∉ s.log) :
    Inv (s.emit e) := by
  have hmem : ∀ n, .drop n ∈ (s.emit e).log ↔ .drop n ∈ s.log := by
    intro n
    rw [← mem_dropped, ← mem_dropped, show (s.emit e).log = e :: s.log from rfl, List.filterMap_cons_none hd]
  have hlive : ∀ n, (s.emit e).Live n ↔ s.Live n := fun n => and_congr_right fun _ => not_congr (hmem n)
  refine ⟨h.mux, h.read, fun k n hk => ?_, fun k hk => ?_, fun n hn => ?_, h.create, fun n hn => ?_, fun n hn => ?_,
    fun n hn => ?_, ?_, fun n hn => ?_, he, h.calls⟩
  · rw [hmem]
    exact h.drop k n hk
  · obtain ⟨n, h1, h2⟩ := h.clear k hk
    exact ⟨n, h1, (hmem n).mpr h2⟩
  · rw [hmem]
    exact h.txt n hn
  · rw [hlive]
    exact h.store n hn
  · exact h.live n ((hlive n).mp hn)
  · exact h.fresh n ((hmem n).mp hn)
  · rw [show (s.emit e).log = e :: s.log from rfl, List.filterMap_cons_none hd]
    exact h.once
  · rw [hmem]
    exact h.call n hn

/-- What `Render` reads for a call has not been dropped. -/
theorem Inv.read_live (h : Inv s) (ha : TxtStable .stepRender s) (hr : s.render = .initTxt ∨ s.render = .drawTxt)
    {n : ℕ} (hn : s.txt = some n) : .drop n ∉ s.log := by
  intro hd
  obtain ⟨k, hk⟩ := (h.txt n hn).2 hd
  exact ha hr k ((h.mux k).mpr (by rw [hk]; rfl)) hk

theorem Inv.renderStep (h : Inv s) (ha : TxtStable .stepRender s) (hs : s.renderStep = some s') : Inv s' := by
  unfold VideoView.renderStep at hs
  rcases hr : s.render with _ | _ | _ | _ | n | _ | _ | n | _ | n | _ <;> rw [hr] at hs
  case idle | null => cases hs
  case viewTest =>
    cases hs
    refine h.moveRender (by rw [hr]; nofun) ?_ ?_ ?_ <;> split <;> nofun
  case txtTest =>
    cases hs
    refine h.moveRender (by rw [hr]; nofun) ?_ ?_ ?_
    · split <;> nofun
    · split
      · exact fun _ => ‹_›
      · nofun
    · split <;> nofun
  case create =>
    cases hs
    have htxt := h.create hr
    have hnew : .drop s.created ∉ s.log := fun hd => Nat.lt_irrefl _ (h.fresh _ hd)
    have hcall := h.called (e := .create s.created) rfl nofun
    refine ⟨hcall.mux, hcall.read, hcall.drop, hcall.clear, fun n hn => ?_, nofun, ?_, ?_, ?_, hcall.once, nofun,
      hcall.calls⟩
    · obtain ⟨h1, h2⟩ := hcall.txt n hn
      exact ⟨Nat.lt_succ_of_lt h1, h2⟩
    · rintro _ ⟨⟩
      exact ⟨htxt, Nat.lt_succ_self _, by simpa [emit] using hnew⟩
    · rintro n ⟨h1, h2⟩
      rcases Nat.lt_succ_iff_lt_or_eq.mp h1 with h1 | rfl
      · have hn := hcall.live n ⟨h1, h2⟩
        rw [show (s.emit (.create s.created)).txt = s.txt from rfl, htxt,
          show (s.emit (.create s.created)).render = s.render from rfl, hr] at hn
        rcases hn with hn | hn <;> cases hn
      · exact .inr rfl
    · exact fun n hn => Nat.lt_succ_of_lt (hcall.fresh n hn)
  case store =>
    cases hs
    obtain ⟨htxt, hlt, hnd⟩ := h.store n hr
    refine ⟨h.mux, fun k hk => absurd htxt (h.read k hk), fun k m hk => ?_, fun k hk => ?_, ?_, nofun, nofun, ?_, h.fresh,
      h.once, nofun, h.calls⟩
    · cases (h.drop k m hk).1.symm.trans htxt
    · obtain ⟨m, h1, -⟩ := h.clear k hk
      cases h1.symm.trans htxt
    · rintro _ ⟨⟩
      exact ⟨hlt, fun hd => absurd hd hnd⟩
    · intro m hm
      rcases h.live m hm with h1 | h1
      · cases h1.symm.trans htxt
      · rw [hr] at h1
        cases h1
        exact .inl rfl
  case initView =>
    cases hs
    exact h.moveRender (by rw [hr]; nofun) nofun nofun nofun
  case initTxt =>
    cases hs
    refine h.moveRender (by rw [hr]; nofun) ?_ ?_ ?_
    · split <;> nofun
    · split <;> nofun
    · split
      · nofun
      · intro n hn
        rcases hn with hn | hn <;> cases hn
        exact h.read_live ha (.inl hr) ‹_›
  case init =>
    cases hs
    have hcall := h.called (e := .init n) rfl (by rintro _ ⟨⟩; exact h.call n (.inl hr))
    exact hcall.moveRender (by rw [show (s.emit _).render = s.render from rfl, hr]; nofun) nofun nofun nofun
  case drawTxt =>
    cases hs
    refine h.moveRender (by rw [hr]; nofun) ?_ ?_ ?_
    · split <;> nofun
    · split <;> nofun
    · split
      · nofun
      · intro n hn
        rcases hn with hn | hn <;> cases hn
        exact h.read_live ha (.inr hr) ‹_›
  case draw =>
    cases hs
    have hcall := h.called (e := .draw n) rfl (by rintro _ ⟨⟩; exact h.call n (.inr hr))
    exact hcall.moveRender (by rw [show (s.emit _).render = s.render from rfl, hr]; nofun) nofun nofun nofun

/-- After a move of the `Close` numbered `k`, what holds of it and of all others. -/
theorem forall_setClose {P : ℕ → ClosePc → Prop} (k : ℕ) (pc : ClosePc) (hk : P k pc)
    (h : ∀ j, j ≠ k → P j (s.close j)) : ∀ j, P j ((s.setClose k pc).close j) :=
  (Function.forall_update_iff s.close P).mpr ⟨hk, h⟩

theorem clear_setClose {k : ℕ} {pc : ClosePc} (hk : s.close k ≠ .clear) (h : ∃ j, s.close j = .clear) :
    ∃ j, (s.setClose k pc).close j = .clear := by
  obtain ⟨j, hj⟩ := h
  refine ⟨j, (Function.update_of_ne ?_ ..).trans hj⟩
  rintro rfl
  exact hk hj

theorem Inv.moveClose (h : Inv s) {k : ℕ} {pc : ClosePc} (hin : pc.inside = (s.close k).inside)
    (hr : pc = .read → s.txt ≠ none) (hd : ∀ n, pc = .drop n → s.txt = some n ∧ .drop n ∉ s.log)
    (hc : pc ≠ .clear) (hc' : s.close k ≠ .clear) : Inv (s.setClose k pc) where
  mux := forall_setClose (P := fun j pc => s.mux = some j ↔ pc.inside = true) k pc (hin ▸ h.mux k) fun j _ => h.mux j
  read := forall_setClose (P := fun _ pc => pc = .read → s.txt ≠ none) k pc hr fun j _ => h.read j
  drop := forall_setClose (P := fun _ pc => ∀ n, pc = .drop n → s.txt = some n ∧ .drop n ∉ s.log) k pc hd
    fun j _ => h.drop j
  clear := forall_setClose (P := fun _ pc => pc = .clear → ∃ n, s.txt = some n ∧ .drop n ∈ s.log) k pc
    (fun he => absurd he hc) fun j _ => h.clear j
  txt n hn := ⟨(h.txt n hn).1, fun hd => clear_setClose hc' ((h.txt n hn).2 hd)⟩
  create := h.create
  store := h.store
  live := h.live
  fresh := h.fresh
  once := h.once
  call := h.call
  calls := h.calls

theorem Inv.setMux (h : Inv s) {k : ℕ} {m : Option ℕ} {pc : ClosePc} (hin : m = some k ↔ pc.inside = true)
    (hk : ∀ j, m = some j → j = k) (hm : ∀ j, s.mux = some j → j = k) (hr : pc ≠ .read) (hd : ∀ n, pc ≠ .drop n)
    (hc : pc ≠ .clear) (hc' : s.close k ≠ .clear) : Inv ({ s with mux := m }.setClose k pc) where
  mux := forall_setClose (P := fun j pc => m = some j ↔ pc.inside = true) k pc hin fun j hne =>
    ⟨fun hj => absurd (hk j hj) hne, fun hj => absurd (hm j ((h.mux j).mpr hj)) hne⟩
  read := forall_setClose (P := fun _ pc => pc = .read → s.txt ≠ none) k pc (fun he => absurd he hr) fun j _ => h.read j
  drop := forall_setClose (P := fun _ pc => ∀ n, pc = .drop n → s.txt = some n ∧ .drop n ∉ s.log) k pc
    (fun n he => absurd he (hd n)) fun j _ => h.drop j
  clear := forall_setClose (P := fun _ pc => pc = .clear → ∃ n, s.txt = some n ∧ .drop n ∈ s.log) k pc
    (fun he => absurd he hc) fun j _ => h.clear j
  txt n hn := ⟨(h.txt n hn).1, fun hd => clear_setClose (s := { s with mux := m }) hc' ((h.txt n hn).2 hd)⟩
  create := h.create
  store := h.store
  live := h.live
  fresh := h.fresh
  once := h.once
  call := h.call
  calls := h.calls

/-- The other calls of `Close` than the one past its lock. -/
theorem Inv.outside (h : Inv s) {k j : ℕ} (hk : (s.close k).inside = true) (hj : j ≠ k) : (s.close j).inside = false :=
  eq_false_of_ne_true fun hin => hj (h.inside_unique hk hin)

theorem Inv.dropped (h : Inv s) {k n : ℕ} (hk : s.close k = .drop n) (ha : s.render ≠ .init n ∧ s.render ≠ .draw n) :
    Inv ((s.emit (.drop n)).setClose k .clear) := by
  obtain ⟨htxt, hnd⟩ := h.drop k n hk
  have hin : (s.close k).inside = true := by rw [hk]; rfl
  have hmem : ∀ m, .drop m ∈ (s.emit (.drop n)).log ↔ m = n ∨ .drop m ∈ s.log := by
    intro m
    show .drop m ∈ .drop n :: s.log ↔ _
    rw [List.mem_cons, ViewEvent.drop.injEq]
  constructor
  case mux =>
    exact forall_setClose (s := s.emit _) (P := fun j pc => s.mux = some j ↔ pc.inside = true) k .clear
      ⟨fun _ => rfl, fun _ => (h.mux k).mpr hin⟩ fun j _ => h.mux j
  case read =>
    exact forall_setClose (s := s.emit _) (P := fun _ pc => pc = .read → s.txt ≠ none) k .clear nofun fun j _ => h.read j
  case drop =>
    refine forall_setClose (s := s.emit _)
      (P := fun _ pc => ∀ m, pc = .drop m → s.txt = some m ∧ .drop m ∉ (s.emit (.drop n)).log) k .clear
      nofun fun j hne m hj => ?_
    have hout := h.outside hin hne
    rw [show s.close j = .drop m from hj] at hout
    cases hout
  case clear => exact fun _ _ => ⟨n, htxt, (hmem n).mpr (.inl rfl)⟩
  case txt => exact fun m hm => ⟨(h.txt m hm).1, fun _ => ⟨k, Function.update_self ..⟩⟩
  case create => exact h.create
  case store =>
    intro m hm
    cases (h.store m hm).1.symm.trans htxt
  case live =>
    rintro m ⟨h1, h2⟩
    exact h.live m ⟨h1, fun hd => h2 ((hmem m).mpr (.inr hd))⟩
  case fresh =>
    intro m hm
    rcases (hmem m).mp hm with rfl | hm
    · exact (h.txt m htxt).1
    · exact h.fresh m hm
  case once => exact List.nodup_cons.mpr ⟨fun hn => hnd (mem_dropped.mp hn), h.once⟩
  case call =>
    intro m hm hd
    rcases (hmem m).mp hd with rfl | hd
    · exact hm.elim ha.1 ha.2
    · exact h.call m hm hd
  case calls => exact ⟨nofun, h.calls⟩

theorem Inv.cleared (h : Inv s) {k : ℕ} (hk : s.close k = .clear) : Inv ({ s with txt := none }.setClose k .unlock) := by
  obtain ⟨n, htxt, hd⟩ := h.clear k hk
  have hin : (s.close k).inside = true := by rw [hk]; rfl
  constructor
  case mux =>
    exact forall_setClose (s := { s with txt := none }) (P := fun j pc => s.mux = some j ↔ pc.inside = true) k .unlock
      ⟨fun _ => rfl, fun _ => (h.mux k).mpr hin⟩ fun j _ => h.mux j
  case read =>
    refine forall_setClose (s := { s with txt := none }) (P := fun _ pc => pc = .read → none ≠ none) k .unlock nofun ?_
    intro j hne hj
    have hout := h.outside hin hne
    rw [show s.close j = .read from hj] at hout
    cases hout
  case drop =>
    refine forall_setClose (s := { s with txt := none })
      (P := fun _ pc => ∀ m, pc = .drop m → none = some m ∧ .drop m ∉ s.log) k .unlock nofun
      fun j hne m hj => ?_
    have hout := h.outside hin hne
    rw [show s.close j = .drop m from hj] at hout
    cases hout
  case clear =>
    refine forall_setClose (s := { s with txt := none })
      (P := fun _ pc => pc = .clear → ∃ m, none = some m ∧ .drop m ∈ s.log) k .unlock nofun
      fun j hne hj => ?_
    have hout := h.outside hin hne
    rw [show s.close j = .clear from hj] at hout
    cases hout
  case txt => exact nofun
  case create => exact fun _ => rfl
  case store => exact fun m hm => ⟨rfl, (h.store m hm).2⟩
  case live =>
    intro m hm
    -- the only texture in `txt` has been dropped
    rcases h.live m hm with h1 | h1
    · cases h1.symm.trans htxt
      exact absurd hd hm.2
    · exact .inr h1
  case fresh => exact h.fresh
  case once => exact h.once
  case call => exact h.call
  case calls => exact h.calls

theorem Inv.closeStep (h : Inv s) {k : ℕ} (ha : TxtStable (.stepClose k) s) (hs : s.closeStep k = some s') : Inv s' := by
  unfold VideoView.closeStep at hs
  rcases hk : s.close k with _ | _ | _ | _ | n | _ | _ <;> rw [hk] at hs
  case idle => cases hs
  case lock =>
    simp only at hs
    split at hs <;> cases hs
    rename_i hm
    exact h.setMux ⟨fun _ => rfl, fun _ => rfl⟩ (fun j hj => (Option.some.inj hj).symm) (by rw [hm]; nofun) nofun nofun
      nofun (by rw [hk]; nofun)
  case test =>
    cases hs
    refine h.moveClose ?_ ?_ ?_ ?_ (by rw [hk]; nofun)
    · rw [hk]
      split <;> rfl
    · split
      · nofun
      · exact fun _ => ‹_›
    · split <;> nofun
    · split <;> nofun
  case read =>
    obtain ⟨n, hn, rfl⟩ := Option.map_eq_some_iff.mp hs
    refine h.moveClose (by rw [hk]; rfl) nofun ?_ nofun (by rw [hk]; nofun)
    rintro _ ⟨⟩
    refine ⟨hn, fun hd => ?_⟩
    obtain ⟨j, hj⟩ := (h.txt n hn).2 hd
    have he := @Inv.inside_unique _ h k j (by rw [hk]; rfl) (by rw [hj]; rfl)
    rw [he, hk] at hj
    cases hj
  case drop =>
    cases hs
    exact h.dropped hk (ha n (by rw [hk]; rfl))
  case clear =>
    cases hs
    exact h.cleared hk
  case unlock =>
    cases hs
    have hm := (h.mux k).mpr (by rw [hk]; rfl)
    exact h.setMux ⟨nofun, nofun⟩ nofun (fun j hj => Option.some.inj (hj.symm.trans hm)) nofun nofun nofun
      (by rw [hk]; nofun)

theorem Inv.step {a : ViewAct} (h : Inv s) (ha : TxtStable a s) (hs : s.step a = some s') : Inv s' := by
  cases a with
  | setRender win =>
    cases hs
    exact ⟨h.mux, h.read, h.drop, h.clear, h.txt, h.create, h.store, h.live, h.fresh, h.once, h.call, h.calls⟩
  | render =>
    simp only [VideoView.step] at hs
    split at hs <;> cases hs
    rename_i hr
    exact h.moveRender (by rw [hr]; nofun) nofun nofun nofun
  | stepRender => exact h.renderStep ha hs
  | close k =>
    simp only [VideoView.step] at hs
    split at hs <;> cases hs
    rename_i hk
    exact h.moveClose (by rw [hk]; rfl) nofun nofun nofun (by rw [hk]; nofun)
  | stepClose k => exact h.closeStep ha hs

theorem Inv.of_reach (h : videoView.Reach TxtStable s) : Inv s := by
  refine h.inv ?_ fun a s t hI ha hs => Inv.step hI ha hs
  rintro _ rfl
  exact ⟨fun _ => ⟨nofun, nofun⟩, nofun, nofun, nofun, nofun, nofun, nofun, fun _ hn => absurd hn.1 (Nat.not_lt_zero _),
    nofun, .nil, nofun, trivial⟩

theorem call_dropped {n : ℕ} (hr : s.render = .init n ∨ s.render = .draw n) (hd : .drop n ∈ s.log) :
    ∃ u, videoView.Run (fun a _ => a = .stepRender) s u ∧ ¬ CallsLive u.log := by
  rcases hr with hr | hr
  · have hs : videoView.step .stepRender s = some { s.emit (.init n) with render := .drawTxt } := by
      simp only [videoView, VideoView.step, VideoView.renderStep, hr]
    exact ⟨_, .single rfl hs, fun hc => hc.1 n rfl hd⟩
  · have hs : videoView.step .stepRender s = some { s.emit (.draw n) with render := .idle } := by
      simp only [videoView, VideoView.step, VideoView.renderStep, hr]
    exact ⟨_, .single rfl hs, fun hc => hc.1 n rfl hd⟩

end VideoView

/-- In every run that meets the condition, `Init` and `Draw` are called on textures that have not been dropped, each
texture is dropped at most once, and at most one is in use. -/
theorem render_live {s : VideoView} (h : videoView.Reach TxtStable s) :
    CallsLive s.log ∧ (s.log.filterMap ViewEvent.dropped).Nodup ∧ ∀ m n, s.Live m → s.Live n → m = n := by
  have hI := VideoView.Inv.of_reach h
  refine ⟨hI.calls, hI.once, fun m n hm hn => ?_⟩
  rcases hI.live m hm with h1 | h1 <;> rcases hI.live n hn with h2 | h2
  · exact Option.some.inj (h1.symm.trans h2)
  · cases h1.symm.trans (hI.store n h2).1
  · cases h2.symm.trans (hI.store m h1).1
  · exact RenderPc.store.inj (h1.symm.trans h2)

/-- A step that violates the condition makes `Render` call a dropped texture, as soon as it goes on. -/
theorem render_dropped {s t : VideoView} {a : ViewAct} (h : videoView.Reach TxtStable s) (ha : ¬ TxtStable a s)
    (hs : s.step a = some t) : ∃ u, videoView.Run (fun a _ => a = .stepRender) t u ∧ ¬ CallsLive u.log := by
  have hI := VideoView.Inv.of_reach h
  cases a with
  | setRender | render | close => exact absurd trivial ha
  | stepClose k =>
    rcases hk : s.close k with _ | _ | _ | _ | n | _ | _
    case drop =>
      have hr : s.render = .init n ∨ s.render = .draw n := by
        by_contra hn
        refine ha fun m hm => ?_
        rw [hk] at hm
        cases hm
        exact not_or.mp hn
      simp only [VideoView.step, VideoView.closeStep, hk] at hs
      cases hs
      exact VideoView.call_dropped hr (List.mem_cons_self ..)
    all_goals
      refine absurd (fun m hm => ?_) ha
      rw [hk] at hm
      cases hm
  | stepRender =>
    obtain ⟨hr, k, hk⟩ : (s.render = .initTxt ∨ s.render = .drawTxt) ∧ ∃ k, s.close k = .clear := by
      by_contra hn
      exact ha fun hr k _ hk => hn ⟨hr, k, hk⟩
    obtain ⟨n, htxt, hd⟩ := hI.clear k hk
    simp only [VideoView.step, VideoView.renderStep] at hs
    rcases hr with hr | hr <;> rw [hr] at hs <;> cases hs
    · exact VideoView.call_dropped (.inl (by rw [htxt])) hd
    · exact VideoView.call_dropped (.inr (by rw [htxt])) hd

/-- The view is given a window, and `Render` is called. -/
def renderFirst : List ViewAct := [.setRender true, .render] ++ List.replicate 8 .stepRender

/-- The `Close` that drops the texture before the `Draw` of the first frame. -/
theorem render_dropped_draw : ∃ s t u : VideoView, videoView.Reach TxtStable s ∧ s.step (.stepClose 0) = some t ∧
    videoView.Run (fun a _ => a = .stepRender) t u ∧ ¬ CallsLive u.log := by
  have hr : (videoView.execIf TxtStable (renderFirst ++ .close 0 :: List.replicate 3 (.stepClose 0)) {}).map
      (fun s => (s.render, s.close 0)) = some (.draw 0, .drop 0) := rfl
  obtain ⟨s, hs, he⟩ := Option.map_eq_some_iff.mp hr
  obtain ⟨hrender, hclose⟩ := Prod.mk.inj he
  have hreach : videoView.Reach TxtStable s := ⟨_, rfl, .of_execIf hs⟩
  have hstep : s.step (.stepClose 0) = some ((s.emit (.drop 0)).setClose 0 .clear) := by
    simp only [VideoView.step, VideoView.closeStep, hclose]
  have hdrop : ¬ TxtStable (.stepClose 0) s := by
    intro h
    refine (h 0 ?_).2 hrender
    rw [hclose]
    rfl
  obtain ⟨u, hu, hc⟩ := render_dropped hreach hdrop hstep
  exact ⟨s, _, u, hreach, hstep, hu, hc⟩

/-- A frame is drawn, `Close` drops the texture, and the next frame is drawn on a new one. -/
theorem render_live_reopened : ∃ s : VideoView, s.render = .idle ∧ s.created = 2 ∧ CallsLive s.log ∧
    s.log.filterMap ViewEvent.dropped = [0] := by
  have hr : (videoView.execIf TxtStable (renderFirst ++ .stepRender :: .close 0 :: List.replicate 6 (.stepClose 0) ++
      .render :: List.replicate 9 .stepRender) {}).map
        (fun s => (s.render, s.created, s.log.filterMap ViewEvent.dropped)) = some (.idle, 2, [0]) := rfl
  obtain ⟨s, hs, he⟩ := Option.map_eq_some_iff.mp hr
  simp only [Prod.mk.injEq] at he
  exact ⟨s, he.1, he.2.1, (render_live ⟨_, rfl, .of_execIf hs⟩).1, he.2.2⟩

/-- `Close` drops the texture between the read of `txt` in `Render` and the call of `Draw`. -/
theorem render_after_drop : ¬ ∀ s : VideoView, videoView.Reach Sys.any s →
    CallsLive s.log ∧ (s.log.filterMap ViewEvent.dropped).Nodup ∧ ∀ m n, s.Live m → s.Live n → m = n := by
  intro h
  have hr : (videoView.exec (renderFirst ++ .close 0 :: List.replicate 4 (.stepClose 0) ++ [.stepRender]) {}).map
      (·.log) = some [.draw 0, .drop 0, .init 0, .create 0] := rfl
  obtain ⟨s, hs, hl⟩ := Option.map_eq_some_iff.mp hr
  have hc := (h s ⟨_, rfl, .of_exec_any hs⟩).1
  rw [hl] at hc
  exact hc.1 0 rfl (by simp)

end XPlayer
