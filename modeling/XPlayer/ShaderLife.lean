import XPlayer.XShader

/-!
# The life cycle of the names of `XShader`

Runs of `Init`, `Close`, `GetTexture` and `Draw`. `Cleans` says that every name that is created is deleted exactly once
and that no deleted program is drawn with; `Ok` is the condition on the steps of a run that ends with `Close` under
which its history does.
-/

namespace XPlayer
open Lifecycle History
variable {β : Type}

def GLCall.act : GLCall β → Ev GLObject
  | .create x => .create x
  | .delete x => .destroy x
  | .useProgram x | .texImage2D x _ _ _ | .texSubImage2D x _ _ _ _ | .drawArrays x _ => .use x

inductive XShaderOp (β : Type)
  | init (type : ℤ) (o : XShaderOutcomes)
  | close
  | getTexture (index : Fin 100) (width height : ℕ) (buf : Option β) (isa : Bool)
  | draw

namespace XShader

/-- Neither the program that is tested nor the program in use is deleted when something is drawn. -/
def Draws (c : GLCall β) (old : List (GLCall β)) : Prop :=
  match c with
  | .drawArrays p used => p ∉ destroyed GLCall.act old ∧ ∀ u ∈ used, u ∉ destroyed GLCall.act old
  | _ => True

structure Cleans (log : List (GLCall β)) : Prop where
  once : ∀ x ∈ created GLCall.act log, (destroyed GLCall.act log).count x = 1
  nodup : (destroyed GLCall.act log).Nodup
  draws : Always Draws log

def step (s : XShader β) : XShaderOp β → XShader β
  | .init type o => (s.init type o).2
  | .close => s.close
  | .getTexture index width height buf isa => s.getTexture index width height buf isa
  | .draw => s.draw

def run (ops : List (XShaderOp β)) : XShader β := ops.foldl step {}

theorem run_append (ops more : List (XShaderOp β)) : run (ops ++ more) = more.foldl step (run ops) :=
  List.foldl_append ..

/-- The names that `Close` deletes were all stored since the `Close` before. -/
def Stored (s : XShader β) : Prop := ∀ x, x ∈ s.program ∨ x ∈ s.fsh ∨ x ∈ s.vsh → s.closed ≤ x.id

/-- No shader is created that does not compile. -/
def Compiles (type : ℤ) (o : XShaderOutcomes) : Prop :=
  o.vertex ≠ .notCompiled ∧ (o.vertex = .compiled → Known type → o.fragment ≠ .notCompiled)

/-- `Close` (also the one in `Init`) finds only names that were stored since the last one, the shaders of `Init` compile
if they are created, and `Draw` finds no program, or one that was created and linked since the last `Close`. -/
def Ok (s : XShader β) : XShaderOp β → Prop
  | .init type o => s.Stored ∧ Compiles type o
  | .close => s.Stored
  | .getTexture .. => True
  | .draw => ∀ p ∈ s.program, s.closed ≤ p.id ∧ ∀ u ∈ s.used, s.closed ≤ u.id

theorem created_append (new old : List (GLCall β)) :
    created GLCall.act (new ++ old) = created GLCall.act new ++ created GLCall.act old := List.filterMap_append

theorem destroyed_append (new old : List (GLCall β)) :
    destroyed GLCall.act (new ++ old) = destroyed GLCall.act new ++ destroyed GLCall.act old := List.filterMap_append

theorem created_delete (xs : List GLObject) : created GLCall.act (xs.map (GLCall.delete (β := β))) = [] := by
  simp [created, GLCall.act, Ev.created]

theorem destroyed_delete (xs : List GLObject) : destroyed GLCall.act (xs.map (GLCall.delete (β := β))) = xs := by
  simp [destroyed, GLCall.act, Ev.destroyed, List.filterMap_map]

theorem mem_names {s : XShader β} {x : GLObject} :
    x ∈ s.names ↔ x ∈ s.program ∨ x ∈ s.fsh ∨ x ∈ s.vsh ∨ ∃ i, x ∈ s.texts i := by
  simp [names]

/-! ### Any run -/

/-- From `s` to `t` nothing is deleted, and what is new is stored under new names. -/
structure Adds (s t : XShader β) : Prop where
  closed : t.closed = s.closed
  next : s.next ≤ t.next
  created : ∀ x ∈ created GLCall.act t.log, x ∈ created GLCall.act s.log ∨ s.next ≤ x.id ∧ x.id < t.next
  destroyed : destroyed GLCall.act t.log = destroyed GLCall.act s.log
  suffix : s.log <:+ t.log
  names : ∀ x ∈ t.names, x ∈ s.names ∨ s.next ≤ x.id ∧ x.id < t.next
  used : ∀ u ∈ t.used, u ∈ s.used ∨ u ∈ t.program

section
variable {s t : XShader β} {o : Option GLObject}

theorem Adds.refl (s : XShader β) : Adds s s :=
  ⟨rfl, le_rfl, fun _ => .inl, rfl, List.suffix_rfl, fun _ => .inl, fun _ => .inl⟩

/-- A call that only uses names. -/
theorem Adds.call (h : Adds s t) {c : GLCall β} {x : GLObject} (hc : c.act = .use x) :
    Adds s { t with log := c :: t.log } where
  closed := h.closed
  next := h.next
  created := by
    have he : Lifecycle.created GLCall.act (c :: t.log) = Lifecycle.created GLCall.act t.log := by
      simp [Lifecycle.created, hc, Ev.created]
    rw [he]
    exact h.created
  destroyed := by
    rw [← h.destroyed]
    simp [Lifecycle.destroyed, hc, Ev.destroyed]
  suffix := h.suffix.trans (List.suffix_cons ..)
  names := h.names
  used := h.used

theorem Adds.create (h : Adds s t) (k : GLKind) : Adds s (t.create k).2 where
  closed := h.closed
  next := Nat.le_succ_of_le h.next
  created := by
    intro x hx
    have he : Lifecycle.created GLCall.act (t.create k).2.log = ⟨k, t.next⟩ :: Lifecycle.created GLCall.act t.log := by
      simp [Lifecycle.created, XShader.create, GLCall.act, Ev.created]
    rw [he] at hx
    rcases List.mem_cons.mp hx with rfl | hx
    · exact .inr ⟨h.next, Nat.lt_succ_self _⟩
    · exact (h.created x hx).imp_right fun hn => ⟨hn.1, Nat.lt_succ_of_lt hn.2⟩
  destroyed := by
    rw [← h.destroyed]
    simp [Lifecycle.destroyed, XShader.create, GLCall.act, Ev.destroyed]
  suffix := h.suffix.trans (List.suffix_cons ..)
  names := fun x hx => (h.names x hx).imp_right fun hn => ⟨hn.1, Nat.lt_succ_of_lt hn.2⟩
  used := h.used

theorem Adds.initShader (h : Adds s t) (o : ShaderOutcome) : Adds s (t.initShader o).2 ∧
    ∀ x ∈ (t.initShader o).1, s.next ≤ x.id ∧ x.id < (t.initShader o).2.next := by
  cases o with
  | notCreated => exact ⟨h, nofun⟩
  | notCompiled => exact ⟨h.create _, nofun⟩
  | compiled => exact ⟨h.create _, by rintro _ ⟨⟩; exact ⟨h.next, Nat.lt_succ_self _⟩⟩

theorem Adds.setVsh (h : Adds s t) (ho : ∀ x ∈ o, s.next ≤ x.id ∧ x.id < t.next) : Adds s { t with vsh := o } :=
  { h with
    names := fun x hx => by
      rcases mem_names.mp hx with hx | hx | hx | hx
      · exact h.names x (mem_names.mpr (.inl hx))
      · exact h.names x (mem_names.mpr (.inr (.inl hx)))
      · exact .inr (ho x hx)
      · exact h.names x (mem_names.mpr (.inr (.inr (.inr hx)))) }

theorem Adds.setFsh (h : Adds s t) (ho : ∀ x ∈ o, s.next ≤ x.id ∧ x.id < t.next) : Adds s { t with fsh := o } :=
  { h with
    names := fun x hx => by
      rcases mem_names.mp hx with hx | hx | hx
      · exact h.names x (mem_names.mpr (.inl hx))
      · exact .inr (ho x hx)
      · exact h.names x (mem_names.mpr (.inr (.inr hx))) }

theorem Adds.setProgram (h : Adds s t) (ho : ∀ x ∈ o, s.next ≤ x.id ∧ x.id < t.next) (hu : t.used = s.used) :
    Adds s { t with program := o } :=
  { h with
    names := fun x hx => by
      rcases mem_names.mp hx with hx | hx
      · exact .inr (ho x hx)
      · exact h.names x (mem_names.mpr (.inr hx))
    used := fun u hx => .inl (hu ▸ hx) }

theorem Adds.setText {x : GLObject} (h : Adds s t) (hx : s.next ≤ x.id ∧ x.id < t.next) (index : Fin 100) :
    Adds s { t with texts := Function.update t.texts index (some x) } :=
  { h with
    names := fun y hy => by
      rcases mem_names.mp hy with hy | hy | hy | ⟨i, hy⟩
      · exact h.names y (mem_names.mpr (.inl hy))
      · exact h.names y (mem_names.mpr (.inr (.inl hy)))
      · exact h.names y (mem_names.mpr (.inr (.inr (.inl hy))))
      · change y ∈ Function.update t.texts index (some x) i at hy
        by_cases hi : i = index
        · rw [hi, Function.update_self] at hy
          cases hy
          exact .inr hx
        · rw [Function.update_of_ne hi] at hy
          exact h.names y (mem_names.mpr (.inr (.inr (.inr ⟨i, hy⟩)))) }

theorem initShader_used (o : ShaderOutcome) (s : XShader β) : (s.initShader o).2.used = s.used := by
  cases o <;> rfl

theorem Adds.initProgram (h : Adds s t) (hu : t.used = s.used) (o : XShaderOutcomes) : Adds s (t.initProgram o).2 := by
  unfold XShader.initProgram
  split
  · exact h.setProgram nofun hu
  · have hp : Adds s { (t.create .program).2 with program := some (t.create .program).1 } :=
      (h.create .program).setProgram (by rintro _ ⟨⟩; exact ⟨h.next, Nat.lt_succ_self _⟩) hu
    simp only
    split
    · exact hp
    · refine Adds.call (t := { (t.create .program).2 with program := some (t.create .program).1,
                                                          used := some (t.create .program).1 }) ?_ rfl
      exact { hp with used := by rintro _ ⟨⟩; exact .inr rfl }

/-- `Init` from the `Close` on. -/
theorem adds_init (s : XShader β) (type : ℤ) (o : XShaderOutcomes) : Adds s.close (s.init type o).2 := by
  obtain ⟨h, hv⟩ := (Adds.refl s.close).initShader o.vertex
  have hu := initShader_used o.vertex s.close
  unfold XShader.init
  split
  · rename_i t ht
    rw [ht] at h
    exact h.setVsh nofun
  · rename_i v t ht
    rw [ht] at h hv hu
    have hs := h.setVsh hv
    simp only
    split
    · obtain ⟨h', hf⟩ := hs.initShader o.fragment
      have hu' := initShader_used o.fragment { t with vsh := some v }
      split
      · rename_i t' ht'
        rw [ht'] at h'
        exact h'.setFsh nofun
      · rename_i f t' ht'
        rw [ht'] at h' hf hu'
        exact (h'.setFsh hf).initProgram (hu'.trans hu) o
    · exact hs

theorem adds_draw (s : XShader β) : Adds s s.draw := by
  unfold XShader.draw
  split
  · exact .refl s
  · exact (Adds.refl s).call rfl

theorem adds_getTexture (s : XShader β) (index : Fin 100) (width height : ℕ) (buf : Option β) (isa : Bool) :
    Adds s (s.getTexture index width height buf isa) := by
  rcases hi : s.texts index with _ | x
  · rw [getTexture_none _ _ _ _ hi]
    have hc := ((Adds.refl s).create .texture).setText (x := ⟨.texture, s.next⟩) ⟨le_rfl, Nat.lt_succ_self _⟩ index
    exact (hc.call (c := .texImage2D ⟨.texture, s.next⟩ isa width height) rfl).call rfl
  · rw [getTexture_some _ _ _ _ hi]
    exact (Adds.refl s).call rfl

end

/-- The names stored before the last `Close` are the deleted ones. -/
structure Inv (s : XShader β) : Prop where
  closed : s.closed ≤ s.next
  created : ∀ x ∈ created GLCall.act s.log, x.id < s.next
  names : ∀ x ∈ s.names, x.id < s.next
  stale : ∀ x ∈ s.names, x.id < s.closed → x ∈ destroyed GLCall.act s.log
  gone : ∀ x ∈ destroyed GLCall.act s.log, x.id < s.closed
  used : ∀ u ∈ s.used, u ∈ destroyed GLCall.act s.log ∨ u ∈ s.program

section
variable {s t : XShader β}

theorem inv_init : Inv ({} : XShader β) := by
  refine ⟨le_rfl, nofun, fun x hx => ?_, fun x _ hx => absurd hx (Nat.not_lt_zero _), nofun, nofun⟩
  rcases mem_names.mp hx with hx | hx | hx | ⟨_, hx⟩ <;> cases hx

theorem close_created (s : XShader β) : created GLCall.act s.close.log = created GLCall.act s.log := by
  unfold close
  rw [created_append, created_delete, List.nil_append]

theorem close_destroyed (s : XShader β) :
    destroyed GLCall.act s.close.log = s.names.reverse ++ destroyed GLCall.act s.log := by
  unfold close
  rw [destroyed_append, destroyed_delete]

theorem close_names {x : GLObject} (hx : x ∈ s.close.names) : x ∈ s.names := by
  rcases mem_names.mp hx with hx | hx | hx | ⟨_, hx⟩
  · exact mem_names.mpr (.inl hx)
  · exact mem_names.mpr (.inr (.inl hx))
  · exact mem_names.mpr (.inr (.inr (.inl hx)))
  · cases hx

theorem close_suffix (s : XShader β) : s.log <:+ s.close.log := List.suffix_append ..

/-- After `Close` all that is stored is deleted. -/
theorem Inv.close (h : s.Inv) : s.close.Inv ∧ ∀ u ∈ s.close.used, u ∈ destroyed GLCall.act s.close.log := by
  have hdel : ∀ x ∈ s.names, x ∈ destroyed GLCall.act s.close.log := by
    intro x hx
    rw [close_destroyed]
    exact List.mem_append_left _ (List.mem_reverse.mpr hx)
  have hused : ∀ u ∈ s.used, u ∈ destroyed GLCall.act s.close.log := by
    intro u hu
    rcases h.used u hu with hd | hp
    · rw [close_destroyed]
      exact List.mem_append_right _ hd
    · exact hdel u (mem_names.mpr (.inl hp))
  refine ⟨⟨le_rfl, ?_, fun x hx => h.names x (close_names hx), fun x hx _ => hdel x (close_names hx), ?_,
    fun u hu => .inl (hused u hu)⟩, hused⟩
  · rw [close_created]
    exact h.created
  · intro x hx
    rw [close_destroyed] at hx
    rcases List.mem_append.mp hx with hx | hx
    · exact h.names x (List.mem_reverse.mp hx)
    · exact lt_of_lt_of_le (h.gone x hx) h.closed

theorem Inv.adds (h : s.Inv) (ha : Adds s t)
    (hu : ∀ u ∈ s.used, u ∈ destroyed GLCall.act s.log ∨ u ∈ t.program) : t.Inv where
  closed := by
    rw [ha.closed]
    exact h.closed.trans ha.next
  created := fun x hx => (ha.created x hx).elim (fun hx => (h.created x hx).trans_le ha.next) And.right
  names := fun x hx => (ha.names x hx).elim (fun hx => (h.names x hx).trans_le ha.next) And.right
  stale := by
    intro x hx hc
    rw [ha.closed] at hc
    rw [ha.destroyed]
    rcases ha.names x hx with hx | hx
    · exact h.stale x hx hc
    · exact absurd (hc.trans_le h.closed) hx.1.not_gt
  gone := by
    rw [ha.destroyed, ha.closed]
    exact h.gone
  used := by
    intro u hx
    rw [ha.destroyed]
    exact (ha.used u hx).elim (hu u) .inr

theorem getTexture_program (index : Fin 100) (width height : ℕ) (buf : Option β) (isa : Bool) :
    (s.getTexture index width height buf isa).program = s.program := by
  rcases hi : s.texts index with _ | x
  · rw [getTexture_none _ _ _ _ hi]
  · rw [getTexture_some _ _ _ _ hi]

theorem draw_program : s.draw.program = s.program := by
  unfold XShader.draw
  split <;> rfl

theorem Inv.step (h : s.Inv) (op : XShaderOp β) : (s.step op).Inv := by
  cases op with
  | init type o =>
    obtain ⟨hc, hu⟩ := h.close
    exact hc.adds (adds_init s type o) fun u hx => .inl (hu u hx)
  | close => exact h.close.1
  | getTexture index width height buf isa =>
    refine h.adds (adds_getTexture s index width height buf isa) fun u hu => ?_
    simp only [XShader.step, getTexture_program]
    exact h.used u hu
  | draw =>
    refine h.adds (adds_draw s) fun u hu => ?_
    simp only [XShader.step, draw_program]
    exact h.used u hu

theorem Inv.foldl (h : s.Inv) (ops : List (XShaderOp β)) : (ops.foldl XShader.step s).Inv := by
  induction ops generalizing s with
  | nil => exact h
  | cons op ops ih => exact ih (h.step op)

theorem inv_run (ops : List (XShaderOp β)) : (run ops).Inv := inv_init.foldl ops

theorem step_suffix (s : XShader β) (op : XShaderOp β) : s.log <:+ (s.step op).log := by
  cases op with
  | init type o => exact (close_suffix s).trans (adds_init s type o).suffix
  | close => exact close_suffix s
  | getTexture index width height buf isa => exact (adds_getTexture s index width height buf isa).suffix
  | draw => exact (adds_draw s).suffix

/-! ### Names that are lost -/

/-- `x` is not deleted and stored nowhere. -/
def Lost (x : GLObject) (s : XShader β) : Prop :=
  x ∈ created GLCall.act s.log ∧ x ∉ destroyed GLCall.act s.log ∧ x ∉ s.names

variable {x : GLObject}

theorem Lost.close (h : Lost x s) : Lost x s.close := by
  obtain ⟨hc, hd, hn⟩ := h
  refine ⟨by rwa [close_created], ?_, fun hx => hn (close_names hx)⟩
  rw [close_destroyed, List.mem_append, List.mem_reverse, not_or]
  exact ⟨hn, hd⟩

theorem Lost.adds (h : Lost x s) (hi : s.Inv) (ha : Adds s t) : Lost x t := by
  obtain ⟨hc, hd, hn⟩ := h
  refine ⟨(ha.suffix.sublist.filterMap _).subset hc, by rwa [ha.destroyed], fun hx => ?_⟩
  rcases ha.names x hx with hx | hx
  · exact hn hx
  · exact absurd (hi.created x hc) hx.1.not_gt

theorem Lost.step (h : Lost x s) (hi : s.Inv) (op : XShaderOp β) : Lost x (s.step op) := by
  cases op with
  | init type o => exact h.close.adds hi.close.1 (adds_init s type o)
  | close => exact h.close
  | getTexture index width height buf isa => exact h.adds hi (adds_getTexture s index width height buf isa)
  | draw => exact h.adds hi (adds_draw s)

theorem Lost.foldl (h : Lost x s) (hi : s.Inv) (ops : List (XShaderOp β)) : Lost x (ops.foldl XShader.step s) := by
  induction ops generalizing s with
  | nil => exact h
  | cons op ops ih => exact ih (h.step hi op) (hi.step op)

/-- A shader that does not compile is lost. -/
theorem lost_init (hi : s.Inv) {type : ℤ} {o : XShaderOutcomes} (ho : ¬ Compiles type o) :
    ∃ x, Lost x (s.init type o).2 := by
  obtain ⟨hc, hu⟩ := hi.close
  have hlost : ∀ t : XShader β, t.Inv → ∀ u : XShader β, u.log = (t.create .shader).2.log →
      (∀ y ∈ u.names, y ∈ t.names) → Lost ⟨.shader, t.next⟩ u := by
    intro t ht u hl hn
    have hcr : created GLCall.act u.log = ⟨.shader, t.next⟩ :: created GLCall.act t.log := by
      simp [hl, Lifecycle.created, create, GLCall.act, Ev.created]
    have hd : destroyed GLCall.act u.log = destroyed GLCall.act t.log := by
      simp [hl, Lifecycle.destroyed, create, GLCall.act, Ev.destroyed]
    refine ⟨by simp [hcr], fun hx => ?_, fun hx => ?_⟩
    · rw [hd] at hx
      exact absurd (ht.gone _ hx) ht.closed.not_gt
    · exact absurd (ht.names _ (hn _ hx)) (lt_irrefl _)
  rcases hv : o.vertex with _ | _ | _
  · exact absurd ⟨by simp [hv], by simp [hv]⟩ ho
  · simp only [XShader.init, hv, XShader.initShader]
    refine ⟨_, hlost s.close hc _ rfl fun y hy => ?_⟩
    rcases mem_names.mp hy with hy | hy | hy | hy
    · exact mem_names.mpr (.inl hy)
    · exact mem_names.mpr (.inr (.inl hy))
    · cases hy
    · exact mem_names.mpr (.inr (.inr (.inr hy)))
  · have hk : Known type ∧ o.fragment = .notCompiled := by
      by_contra hn
      exact ho ⟨by simp [hv], fun _ hk hf => hn ⟨hk, hf⟩⟩
    obtain ⟨hk, hf⟩ := hk
    simp only [XShader.init, hv, XShader.initShader, hk, hf, if_true]
    have ha := ((Adds.refl s.close).create .shader).setVsh (o := some ⟨.shader, s.close.next⟩)
      (by rintro _ ⟨⟩; exact ⟨le_rfl, Nat.lt_succ_self _⟩)
    refine ⟨_, hlost _ (hc.adds ha fun u hx => .inl (hu u hx)) _ rfl fun y hy => ?_⟩
    rcases mem_names.mp hy with hy | hy | hy
    · exact mem_names.mpr (.inl hy)
    · cases hy
    · exact mem_names.mpr (.inr (.inr hy))

end

section
variable {s : XShader β}

theorem Inv.stored (h : s.Inv) (hn : (destroyed GLCall.act s.close.log).Nodup) : s.Stored := by
  rw [close_destroyed] at hn
  intro x hx
  have hm : x ∈ s.names := mem_names.mpr (by tauto)
  by_contra hlt
  exact (List.nodup_append.mp hn).2.2 x (List.mem_reverse.mpr hm) x (h.stale x hm (not_le.mp hlt)) rfl

theorem Cleans.ok {ops : List (XShaderOp β)} (h : Cleans (ops.foldl XShader.step s).log) (hi : s.Inv)
    {pre post : List (XShaderOp β)} {op : XShaderOp β} (hops : ops = pre ++ op :: post) :
    (pre.foldl XShader.step s).Ok op := by
  have hp : (pre.foldl XShader.step s).Inv := hi.foldl pre
  subst hops
  rw [List.foldl_append, List.foldl_cons] at h
  generalize pre.foldl XShader.step s = t at h hp ⊢
  have hsuf := foldl_suffix step_suffix (t.step op) post
  have hst : t.close.log <:+ (post.foldl XShader.step (t.step op)).log → t.Stored := fun hc =>
    hp.stored (h.nodup.sublist (hc.sublist.filterMap _))
  cases op with
  | init type o =>
    refine ⟨hst ((adds_init t type o).suffix.trans hsuf), ?_⟩
    by_contra ho
    obtain ⟨x, hx⟩ := lost_init hp ho
    obtain ⟨hc, hd, -⟩ := Lost.foldl hx (hp.step (.init type o)) post
    exact hd (List.count_pos_iff.mp (Nat.one_pos.trans_eq (h.once x hc).symm))
  | close => exact hst hsuf
  | getTexture index width height buf isa => trivial
  | draw =>
    intro p hpr
    have hlog : .drawArrays p t.used :: t.log <:+ (post.foldl XShader.step (t.step .draw)).log := by
      refine List.IsSuffix.trans ?_ hsuf
      simp only [XShader.step, XShader.draw, Option.mem_def.mp hpr]
      exact List.suffix_rfl
    obtain ⟨hpd, hud⟩ := h.draws _ _ hlog
    have hle : ∀ x ∈ t.program, x ∉ destroyed GLCall.act t.log → t.closed ≤ x.id := fun x hx hd =>
      not_lt.mp fun hlt => hd (hp.stale x (mem_names.mpr (.inl hx)) hlt)
    refine ⟨hle p hpr hpd, fun u hu => ?_⟩
    exact hle u ((hp.used u hu).resolve_left (hud u hu)) (hud u hu)

end

/-! ### A run with the condition -/

/-- What `Close` would delete for the first time. -/
def alive (s : XShader β) : List GLObject :=
  (s.program.toList ++ s.fsh.toList ++ s.vsh.toList).filter (fun x => s.closed ≤ x.id) ++
    (List.finRange 100).filterMap s.texts

/-- The names that are created and not deleted are stored, and no deleted program was drawn with. -/
structure Good (s : XShader β) : Prop where
  sound : Sound GLCall.act (fun _ _ => True) GLObject.id s.next s.log s.alive
  draws : Always Draws s.log

section
variable {s : XShader β}

theorem alive_eq_names (h : s.Stored) : s.alive = s.names := by
  unfold alive names
  rw [List.filter_eq_self.mpr]
  intro x hx
  simp only [List.mem_append, Option.mem_toList] at hx
  exact decide_eq_true (h x (by tauto))

theorem Good.close (h : s.Good) (hs : s.Stored) :
    Sound GLCall.act (fun _ _ => True) GLObject.id s.next s.close.log [] ∧ Always Draws s.close.log := by
  have hsd := h.sound
  rw [alive_eq_names hs] at hsd
  refine ⟨(hsd.perm (.of_eq (List.append_nil _).symm)).destroy_list (fun _ => rfl) fun _ _ => trivial, ?_⟩
  refine h.draws.append fun e mid he => ?_
  obtain ⟨x, -, rfl⟩ := List.mem_map.mp (he.subset (List.mem_cons_self ..))
  trivial

/-- After `Close` only what is stored anew is alive. -/
theorem good_fresh (h : s.Inv) {t : XShader β} {P F V : Option GLObject}
    (hP : ∀ x ∈ P, s.next ≤ x.id) (hF : ∀ x ∈ F, s.next ≤ x.id) (hV : ∀ x ∈ V, s.next ≤ x.id)
    (hc : t.closed = s.next) (htx : t.texts = fun _ => none)
    (hp : t.program = P ∨ t.program = s.program ∧ P = none) (hf : t.fsh = F ∨ t.fsh = s.fsh ∧ F = none)
    (hv : t.vsh = V ∨ t.vsh = s.vsh ∧ V = none)
    (hs : Sound GLCall.act (fun _ _ => True) GLObject.id t.next t.log (P.toList ++ (F.toList ++ V.toList)))
    (hd : Always Draws t.log) : t.Good := by
  have hnew : ∀ o : Option GLObject, (∀ x ∈ o, s.next ≤ x.id) →
      o.toList.filter (fun x => t.closed ≤ x.id) = o.toList := by
    intro o ho
    refine List.filter_eq_self.mpr fun x hx => decide_eq_true ?_
    rw [hc]
    exact ho x (Option.mem_toList.mp hx)
  have hold : ∀ o : Option GLObject, (∀ x ∈ o, x ∈ s.names) → o.toList.filter (fun x => t.closed ≤ x.id) = [] := by
    intro o ho
    refine List.filter_eq_nil_iff.mpr fun x hx => ?_
    rw [hc, decide_eq_true_eq, not_le]
    exact h.names x (ho x (Option.mem_toList.mp hx))
  have h1 : t.program.toList.filter (fun x => t.closed ≤ x.id) = P.toList := by
    rcases hp with rfl | ⟨hp, rfl⟩
    · exact hnew _ hP
    · rw [hp, hold _ fun x hx => mem_names.mpr (.inl hx)]
      rfl
  have h2 : t.fsh.toList.filter (fun x => t.closed ≤ x.id) = F.toList := by
    rcases hf with rfl | ⟨hf, rfl⟩
    · exact hnew _ hF
    · rw [hf, hold _ fun x hx => mem_names.mpr (.inr (.inl hx))]
      rfl
  have h3 : t.vsh.toList.filter (fun x => t.closed ≤ x.id) = V.toList := by
    rcases hv with rfl | ⟨hv, rfl⟩
    · exact hnew _ hV
    · rw [hv, hold _ fun x hx => mem_names.mpr (.inr (.inr (.inl hx)))]
      rfl
  refine ⟨hs.perm (.of_eq ?_), hd⟩
  unfold alive
  rw [List.filter_append, List.filter_append, h1, h2, h3, htx]
  simp

theorem Good.init (h : s.Good) (hi : s.Inv) {type : ℤ} {o : XShaderOutcomes} (hok : s.Ok (.init type o)) :
    (s.init type o).2.Good := by
  obtain ⟨hst, hv, hf⟩ := hok
  obtain ⟨hs, hd⟩ := h.close hst
  have hnew : ∀ (k : GLKind) {m : ℕ}, s.next ≤ m → ∀ x ∈ some (GLObject.mk k m), s.next ≤ x.id := by
    rintro k m hm _ ⟨⟩
    exact hm
  have h0 := hnew .shader (le_refl s.next)
  have h1 := hnew .shader (Nat.le_add_right s.next 1)
  have h2 := hnew .program (Nat.le_add_right s.next 2)
  rcases hov : o.vertex with _ | _ | _
  · simp only [XShader.init, hov, XShader.initShader]
    exact good_fresh hi (P := none) (F := none) (V := none) nofun nofun nofun rfl rfl (.inr ⟨rfl, rfl⟩) (.inr ⟨rfl, rfl⟩)
      (.inl rfl) hs hd
  · exact absurd hov hv
  have hsv := hs.create (x := GLObject.mk .shader s.next) (e := .create (.mk .shader s.next)) rfl rfl fun _ _ => trivial
  have hdv : Always Draws (.create (.mk .shader s.next) :: s.close.log) := always_cons.mpr ⟨trivial, hd⟩
  by_cases hk : Known type
  swap
  · simp only [XShader.init, hov, XShader.initShader, if_neg hk]
    exact good_fresh hi (P := none) (F := none) nofun nofun h0 rfl rfl (.inr ⟨rfl, rfl⟩) (.inr ⟨rfl, rfl⟩) (.inl rfl) hsv
      hdv
  rcases hof : o.fragment with _ | _ | _
  · simp only [XShader.init, hov, XShader.initShader, if_pos hk, hof]
    exact good_fresh hi (P := none) (F := none) nofun nofun h0 rfl rfl (.inr ⟨rfl, rfl⟩) (.inl rfl) (.inl rfl) hsv hdv
  · exact absurd hof (hf hov hk)
  have hsf := hsv.create (x := GLObject.mk .shader (s.next + 1)) (e := .create (.mk .shader (s.next + 1))) rfl rfl
    fun _ _ => trivial
  have hdf : Always Draws (.create (.mk .shader (s.next + 1)) :: .create (.mk .shader s.next) :: s.close.log) :=
    always_cons.mpr ⟨trivial, hdv⟩
  simp only [XShader.init, hov, XShader.initShader, if_pos hk, hof]
  unfold XShader.initProgram
  split
  · exact good_fresh hi (P := none) nofun h1 h0 rfl rfl (.inl rfl) (.inl rfl) (.inl rfl) hsf hdf
  have hsp := hsf.create (x := GLObject.mk .program (s.next + 1 + 1)) (e := .create (.mk .program (s.next + 1 + 1))) rfl
    rfl fun _ _ => trivial
  have hdp : Always Draws (.create (.mk .program (s.next + 1 + 1)) :: .create (.mk .shader (s.next + 1)) ::
      .create (.mk .shader s.next) :: s.close.log) := always_cons.mpr ⟨trivial, hdf⟩
  simp only
  split
  · exact good_fresh hi h2 h1 h0 rfl rfl (.inl rfl) (.inl rfl) (.inl rfl) hsp hdp
  · have hsu := hsp.use (e := .useProgram (.mk .program (s.next + 1 + 1))) rfl (List.mem_cons_self ..) fun _ _ => trivial
    exact good_fresh hi h2 h1 h0 rfl rfl (.inl rfl) (.inl rfl) (.inl rfl) hsu (always_cons.mpr ⟨trivial, hdp⟩)

theorem filterMap_update_perm {α γ : Type*} [DecidableEq α] {l : List α} (hl : l.Nodup) {i : α} (hi : i ∈ l)
    {f : α → Option γ} (hf : f i = none) (x : γ) :
    (l.filterMap (Function.update f i (some x))).Perm (x :: l.filterMap f) := by
  induction l with
  | nil => cases hi
  | cons a l ih =>
    obtain ⟨ha, hl⟩ := List.nodup_cons.mp hl
    by_cases hai : a = i
    · subst hai
      have hc : l.filterMap (Function.update f a (some x)) = l.filterMap f := by
        refine List.filterMap_congr fun b hb => Function.update_of_ne ?_ _ _
        rintro rfl
        exact ha hb
      rw [List.filterMap_cons_some (Function.update_self ..), List.filterMap_cons_none hf, hc]
    · have ih := ih hl ((List.mem_cons.mp hi).resolve_left (Ne.symm hai))
      have hu : Function.update f i (some x) a = f a := Function.update_of_ne hai _ _
      rcases hfa : f a with _ | b
      · rw [List.filterMap_cons_none (hu.trans hfa), List.filterMap_cons_none hfa]
        exact ih
      · rw [List.filterMap_cons_some (hu.trans hfa), List.filterMap_cons_some hfa]
        exact (ih.cons b).trans (.swap ..)

theorem Good.getTexture (h : s.Good) (index : Fin 100) (width height : ℕ) (buf : Option β) (isa : Bool) :
    (s.getTexture index width height buf isa).Good := by
  rcases hi : s.texts index with _ | x
  · rw [getTexture_none _ _ _ _ hi]
    have hs := h.sound.create (x := GLObject.mk .texture s.next) (e := .create (.mk .texture s.next)) rfl rfl
      fun _ _ => trivial
    have hs := hs.use (e := .texImage2D (.mk .texture s.next) isa width height) rfl (List.mem_cons_self ..)
      fun _ _ => trivial
    have hs := hs.use (e := .texSubImage2D (.mk .texture s.next) isa width height buf) rfl (List.mem_cons_self ..)
      fun _ _ => trivial
    refine ⟨hs.perm ?_, always_cons.mpr ⟨trivial, always_cons.mpr ⟨trivial, always_cons.mpr ⟨trivial, h.draws⟩⟩⟩⟩
    have hp := filterMap_update_perm (List.nodup_finRange 100) (List.mem_finRange index) hi ⟨.texture, s.next⟩
    exact List.perm_middle.symm.trans (hp.symm.append_left _)
  · rw [getTexture_some _ _ _ _ hi]
    have hx : x ∈ s.alive := List.mem_append_right _ (List.mem_filterMap.mpr ⟨index, List.mem_finRange index, hi⟩)
    exact ⟨h.sound.use (x := x) rfl hx fun _ _ => trivial, always_cons.mpr ⟨trivial, h.draws⟩⟩

theorem Good.draw (h : s.Good) (hi : s.Inv) (hok : s.Ok .draw) : s.draw.Good := by
  unfold XShader.draw
  split
  · exact h
  · rename_i p hp
    obtain ⟨hc, hu⟩ := hok p hp
    have hx : p ∈ s.alive := by
      refine List.mem_append_left _ (List.mem_filter.mpr ⟨?_, decide_eq_true hc⟩)
      simp [hp]
    refine ⟨h.sound.use (x := p) rfl hx fun _ _ => trivial, always_cons.mpr ⟨⟨fun hd => ?_, fun u hu' hd => ?_⟩, h.draws⟩⟩
    · exact absurd (hi.gone p hd) hc.not_gt
    · exact absurd (hi.gone u hd) (hu u hu').not_gt

theorem Good.step (h : s.Good) (hi : s.Inv) {op : XShaderOp β} (hok : s.Ok op) : (s.step op).Good := by
  cases op with
  | init type o => exact h.init hi hok
  | close =>
    obtain ⟨hs, hd⟩ := h.close hok
    exact good_fresh hi (P := none) (F := none) (V := none) nofun nofun nofun rfl rfl (.inr ⟨rfl, rfl⟩) (.inr ⟨rfl, rfl⟩)
      (.inr ⟨rfl, rfl⟩) hs hd
  | getTexture index width height buf isa => exact h.getTexture index width height buf isa
  | draw => exact h.draw hi hok

theorem good_run {ops : List (XShaderOp β)} (h : ∀ pre op post, ops = pre ++ op :: post → (run pre).Ok op) :
    (run ops).Good := by
  induction ops using List.reverseRecOn with
  | nil => exact ⟨.nil, always_nil⟩
  | append_singleton ops op ih =>
    rw [run_append]
    refine (ih fun pre a post hp => h pre a (post ++ [op]) ?_).step (inv_run ops) (h ops op [] rfl)
    rw [hp, List.append_assoc, List.cons_append]

/-- In a run that ends with `Close` every name is deleted exactly once and no deleted program is drawn with, if and only
if each step is `Ok`. -/
theorem names_deleted_once (ops : List (XShaderOp β)) : Cleans (run (ops ++ [.close])).log ↔
    ∀ pre op post, ops ++ [.close] = pre ++ op :: post → (run pre).Ok op := by
  constructor
  · exact fun h pre op post hops => h.ok inv_init hops
  · intro h
    have hg : (run ops).Good := good_run fun pre a post hp =>
      h pre a (post ++ [.close]) (by rw [hp, List.append_assoc, List.cons_append])
    obtain ⟨hs, hd⟩ := hg.close (h ops .close [] rfl)
    rw [run_append]
    refine ⟨fun x hx => ?_, hs.destroyed_nodup, hd⟩
    exact List.count_eq_one_of_mem hs.destroyed_nodup (hs.mem_destroyed hx nofun)

/-- A second `Close` deletes the shaders and the program again. -/
theorem names_deleted_twice : ¬ ∀ ops : List (XShaderOp Unit), Cleans (run (ops ++ [.close])).log := by
  intro h
  have hn := (h [.init XSHADER_YUV420P {}, .close]).nodup
  revert hn
  decide +kernel

end

end XShader

end XPlayer
