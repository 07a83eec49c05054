import XPlayer.PlayerStep
import XPlayer.Lib.Custody

/-!
# Packet ownership

A packet passes from the thread that read it to the queue of one decoder, from there to a worker of that
decoder, and is dropped by the last one. `Own` ties the places of all packets in a custody ledger of
the history to the threads and queues that hold them.

`Notify` offers the same pointer to both decoders, so a packet has one owner only as long as their
`isAudio` differ on it: the condition `AudioKnown`.
-/

namespace XPlayer
variable {K : Type}

/-! ### What a thread holds -/

/-- The packet that `Notify` has still to pass on: once `vDecode` has stored a video packet, it is no
longer the caller's. -/
def UpdatePc.owned : UpdatePc → List XData
  | .enter .audio x => if x.isAudio then [x] else []
  | .enter _ x | .exitTest _ x | .section _ x => [x]

/-- `Update` goes on only with the packets of its own kind. -/
def UpdatePc.Matched : UpdatePc → Prop
  | .enter _ _ => True
  | .exitTest d x | .section d x => d = .audio ↔ x.isAudio = true

def DemuxPc.owned : DemuxPc → List XData
  | .notify x => [x]
  | .update u => u.owned
  | _ => []

def DecPc.owned : DecPc → List XData
  | .send x | .innerExit x | .recv x | .notify x _ | .resample x _ | .pcmExit x _ | .pcmSection x _
  | .drop x => [x]
  | _ => []

def SeekPc.owned : SeekPc → List XData
  | .skip _ x | .notify _ x | .send _ x | .drop _ x => [x]
  | .update _ u => u.owned
  | _ => []

def Cmd.owned : Cmd → List XData
  | .seek _ _ pc => pc.owned
  | _ => []

/-- The packets that `w` holds. -/
def Player.owned (s : Player K) : Holder → List XData
  | .demux n => (s.demuxW n).owned
  | .ui => (s.ui.head?.map Cmd.owned).getD []
  | .queue d => (s.dec d).packs
  | .decoder d n => (s.decW d n).owned

/-! ### The history as a custody ledger -/

def Event.custody : Event → Option (Custody.Ev ℕ Holder)
  | .read w x => some (.take x.handle w)
  | .push w d x => some (.pass x.handle w (.queue d))
  | .pop d n x => some (.pass x.handle (.queue d) (.decoder d n))
  | .send w x => some (.use x.handle w)
  | .drop w x => some (.free x.handle w)
  | _ => none

/-- Threads that read, queues, decoder workers. -/
def Holder.rank : Holder → ℕ
  | .demux _ | .ui => 0
  | .queue _ => 1
  | .decoder _ _ => 2

/-- The handle that an event stores in a queue. -/
def Event.stored : Event → Option ℕ
  | .push _ _ x => some x.handle
  | _ => none

/-- The handle that an event drops. -/
def Event.dropped : Event → Option ℕ
  | .drop _ x => some x.handle
  | _ => none

/-- Every packet is stored in at most one queue and dropped at most once, and is not sent after it was
dropped. -/
structure Owned (log : List Event) : Prop where
  stored : (log.filterMap Event.stored).Nodup
  dropped : (log.filterMap Event.dropped).Nodup
  sent : ∀ new old w w' x y, log = new ++ .drop w x :: old → .send w' y ∈ new → y.handle ≠ x.handle

/-- The packet that a step offers to `aDecode`. -/
def Player.offered (s : Player K) : Act → Option XData
  | .demux n =>
    match s.demuxW n with
    | .update (.enter .audio x) => some x
    | _ => none
  | .ui =>
    match s.ui with
    | .seek _ _ (.update _ (.enter .audio x)) :: _ => some x
    | _ => none
  | _ => none

/-- The condition on the steps of a run: when a video packet is offered to `aDecode`, an earlier
`FFDecode::Open` has told it that it decodes audio. -/
def AudioKnown (a : Act) (s : Player K) : Prop :=
  ∀ x ∈ s.offered a, x.isAudio = false → (s.dec .audio).isAudio = true

instance (a : Act) (s : Player K) : Decidable (AudioKnown a s) :=
  inferInstanceAs (Decidable (∀ x ∈ s.offered a, _))

/-- A ledger that accounts for the history: what it says of the packets of the history. -/
theorem Owned.of_ledger {log : List Event} {p : ℕ → Custody.Place Holder}
    (h : Custody.ledger (log.filterMap Event.custody) = some p)
    (hr : Custody.Raises Holder.rank (log.filterMap Event.custody)) : Owned log where
  stored := by
    have hn := Custody.entered_nodup Holder.rank 1 h hr
    rw [List.filterMap_filterMap] at hn
    refine (congrArg List.Nodup (List.filterMap_congr fun e _ => ?_)).mp hn
    cases e <;> rfl
  dropped := by
    have hn := Custody.freed_nodup h
    rw [List.filterMap_filterMap] at hn
    refine (congrArg List.Nodup (List.filterMap_congr fun e _ => ?_)).mp hn
    cases e <;> rfl
  sent := by
    rintro new old w w' x y rfl hy he
    rw [List.filterMap_append] at h
    exact Custody.ledger_free h (.use y.handle w') (List.mem_filterMap.mpr ⟨_, hy, rfl⟩) he

/-! ### The places of the packets -/

namespace Player

/-- The ledger of the history has the places `p`, and every packet is where `p` says. -/
structure Own (s : Player K) (p : ℕ → Custody.Place Holder) : Prop where
  ledger : Custody.ledger (s.log.filterMap Event.custody) = some p
  raises : Custody.Raises Holder.rank (s.log.filterMap Event.custody)
  fresh : ∀ h, s.fresh ≤ h → p h = .fresh
  held : ∀ w x, x ∈ s.owned w → p x.handle = .held w
  nodup : ∀ d, ((s.dec d).packs.map XData.handle).Nodup

namespace Own
variable {s s' : Player K} {p p' : ℕ → Custody.Place Holder}

theorem quiet (h : s.Own p) (hl : s'.log.filterMap Event.custody = s.log.filterMap Event.custody)
    (hf : s.fresh ≤ s'.fresh) (ho : ∀ w x, x ∈ s'.owned w → x ∈ s.owned w ∨ p x.handle = .held w)
    (hp : ∀ d, (s'.dec d).packs = (s.dec d).packs) : s'.Own p where
  ledger := by rw [hl]; exact h.ledger
  raises := by rw [hl]; exact h.raises
  fresh t ht := h.fresh t (hf.trans ht)
  held w x hx := (ho w x hx).elim (h.held w x) id
  nodup d := by rw [hp]; exact h.nodup d

theorem event (h : s.Own p) {e : Custody.Ev ℕ Holder}
    (hl : s'.log.filterMap Event.custody = e :: s.log.filterMap Event.custody) (he : e.step p = some p')
    (hr : ∀ t a b, e = .pass t a b → a.rank < b.rank) (hf : s.fresh ≤ s'.fresh) (ht : e.token < s'.fresh)
    (ho : ∀ w x, x ∈ s'.owned w → (x ∈ s.owned w ∧ x.handle ≠ e.token) ∨ p' x.handle = .held w)
    (hn : ∀ d, ((s'.dec d).packs.map XData.handle).Nodup) : s'.Own p' where
  ledger := by rw [hl]; exact Custody.ledger_cons h.ledger he
  raises t a b hm := by
    rw [hl] at hm
    rcases List.mem_cons.mp hm with hm | hm
    · exact hr t a b hm.symm
    · exact h.raises t a b hm
  fresh t ht' := by
    rw [Custody.step_other he (by omega)]
    exact h.fresh t (by omega)
  held w x hx := by
    rcases ho w x hx with ⟨hx, hne⟩ | hx
    · rw [Custody.step_other he hne]
      exact h.held w x hx
    · exact hx
  nodup := hn

theorem lt_fresh (h : s.Own p) {x : XData} {w : Holder} (hx : p x.handle = .held w) :
    x.handle < s.fresh := by
  by_contra hlt
  rw [h.fresh _ (not_lt.mp hlt)] at hx
  cases hx

/-- Packets of different holders differ. -/
theorem handle_ne (h : s.Own p) {w : Holder} {x y : XData} (hx : p x.handle = .held w) (w' : Holder)
    (hy : y ∈ s.owned w') (hne : w' ≠ w) : y.handle ≠ x.handle := by
  intro he
  have hy := h.held w' y hy
  rw [he, hx] at hy
  cases hy
  exact hne rfl

/-! #### Moves of the threads -/

theorem moveDemux (h : s.Own p) {n : ℕ} {pc : DemuxPc}
    (ho : ∀ x ∈ pc.owned, p x.handle = .held (.demux n)) : (s.setDemux n pc).Own p := by
  refine h.quiet rfl le_rfl (fun w x hx => ?_) fun _ => rfl
  cases w with
  | demux m =>
    by_cases hm : m = n
    · subst hm
      exact .inr (ho x (by simpa [owned, setDemux] using hx))
    · exact .inl (by simpa [owned, setDemux, Function.update_of_ne hm] using hx)
  | _ => exact .inl hx

theorem moveDecW (h : s.Own p) {d : Dec} {n : ℕ} {pc : DecPc}
    (ho : ∀ x ∈ pc.owned, p x.handle = .held (.decoder d n)) : (s.setDecW d n pc).Own p := by
  refine h.quiet rfl le_rfl (fun w x hx => ?_) fun _ => rfl
  cases w with
  | decoder d' m =>
    by_cases hm : d' = d ∧ m = n
    · obtain ⟨rfl, rfl⟩ := hm
      exact .inr (ho x (by simpa [owned, setDecW] using hx))
    · refine .inl ?_
      by_cases hd : d' = d
      · subst hd
        have hm : m ≠ n := fun he => hm ⟨rfl, he⟩
        simpa [owned, setDecW, Function.update_of_ne hm] using hx
      · simpa [owned, setDecW, Function.update_of_ne hd] using hx
  | _ => exact .inl hx

theorem moveUi (h : s.Own p) {cs : List Cmd}
    (ho : ∀ x ∈ (cs.head?.map Cmd.owned).getD [], p x.handle = .held .ui) :
    Own { s with ui := cs } p := by
  refine h.quiet rfl le_rfl (fun w x hx => ?_) fun _ => rfl
  cases w with
  | ui => exact .inr (ho x hx)
  | _ => exact .inl hx

theorem setDec (h : s.Own p) {d : Dec} {D : FFDecode K} (hD : D.packs = (s.dec d).packs) :
    (s.setDec d D).Own p := by
  have hp : ∀ d', ((s.setDec d D).dec d').packs = (s.dec d').packs := by
    intro d'
    by_cases hd : d' = d
    · subst hd; simpa [Player.setDec] using hD
    · simp [Player.setDec, Function.update_of_ne hd]
  refine h.quiet rfl le_rfl (fun w x hx => ?_) hp
  cases w with
  | queue d' => exact .inl (by simpa [owned, hp d'] using hx)
  | _ => exact .inl hx

/-! #### The events of a packet -/

end Own

theorem readBy_data {s : Player K} {w : Holder} (h : 0 < (s.readBy w).1.size) :
    (s.readBy w).1.data ≠ .null := by
  simp only [readBy] at h ⊢
  unfold FFDemux.read at h ⊢
  split at h
  · simp at h
  · split at h
    · simp at h
    · simp only at h ⊢
      split_ifs at h ⊢ <;> simp_all [FFDemux.packetData]

theorem readBy_handle {s : Player K} {w : Holder} (h : (s.readBy w).1.data ≠ .null) :
    (s.readBy w).1.handle = s.fresh := by
  simp only [readBy] at h ⊢
  unfold FFDemux.read at h ⊢
  split
  · simp_all
  · split
    · simp_all
    · simp only
      split_ifs <;> simp_all [FFDemux.packetData, XData.handle]

namespace Own
variable {s s' : Player K} {p p' : ℕ → Custody.Place Holder}

theorem readBy (h : s.Own p) (w : Holder) :
    ∃ p', (s.readBy w).2.Own p' ∧
      ((s.readBy w).1.data ≠ .null → p' (s.readBy w).1.handle = .held w) := by
  by_cases hx : (s.readBy w).1.data = .null
  · refine ⟨p, h.quiet ?_ ?_ ?_ ?_, fun hn => absurd hx hn⟩ <;>
      simp only [Player.readBy] at hx ⊢ <;> rw [if_pos hx]
    · exact Nat.le_succ _
    · exact fun w x hx => .inl hx
    · exact fun _ => rfl
  · -- the handle is the next one
    have hh : (s.readBy w).1.handle = s.fresh := readBy_handle hx
    have hp : p (s.readBy w).1.handle = .fresh := h.fresh _ hh.ge
    refine ⟨_, h.event (e := .take (s.readBy w).1.handle w) ?_ (Custody.step_take hp) ?_ ?_ ?_ ?_ ?_,
      fun _ => Function.update_self ..⟩
    · simp only [Player.readBy] at hx ⊢
      rw [if_neg hx]
      rfl
    · rintro t a b ⟨⟩
    · simp only [Player.readBy] at hx ⊢
      rw [if_neg hx]
      exact Nat.le_succ _
    · simp only [Custody.Ev.token, hh]
      simp only [Player.readBy] at hx ⊢
      rw [if_neg hx]
      exact Nat.lt_succ_self _
    · intro w' y hy
      refine .inl ⟨?_, ?_⟩
      · simp only [Player.readBy] at hx hy
        rw [if_neg hx] at hy
        exact hy
      · simp only [Custody.Ev.token, hh]
        have hy : y ∈ s.owned w' := by
          simp only [Player.readBy] at hx hy
          rw [if_neg hx] at hy
          exact hy
        exact (h.lt_fresh (h.held w' y hy)).ne
    · intro d
      simp only [Player.readBy] at hx ⊢
      rw [if_neg hx]
      exact h.nodup d

theorem pushed (h : s.Own p) {w : Holder} {d : Dec} {x : XData} (hx : p x.handle = .held w)
    (hw : s.owned w = []) (hr : w.rank = 0) : ∃ p', (s.pushed w d x).Own p' := by
  have hq : (.queue d : Holder) ≠ w := by rintro rfl; cases hr
  have hpk : ∀ d', ((s.pushed w d x).dec d').packs = if d' = d then (s.dec d).packs ++ [x] else (s.dec d').packs := by
    intro d'
    by_cases hd : d' = d
    · subst hd; simp [Player.pushed, Player.setDec, emit]
    · simp [Player.pushed, Player.setDec, emit, hd]
  refine ⟨_, h.event (e := .pass x.handle w (.queue d)) rfl (Custody.step_pass hx) ?_ le_rfl
    (h.lt_fresh hx) ?_ ?_⟩
  · rintro t a b ⟨⟩
    rw [hr]
    exact Nat.one_pos
  · intro w' y hy
    by_cases hw' : w' = w
    · subst hw'
      cases w' with
      | queue d' => cases hr
      | _ => exact absurd (hw ▸ hy : y ∈ []) (List.not_mem_nil)
    · cases w' with
      | queue d' =>
        have hy : y ∈ ((s.pushed w d x).dec d').packs := hy
        rw [hpk] at hy
        split at hy
        · rename_i hd
          subst hd
          rcases List.mem_append.mp hy with hy | hy
          · exact .inl ⟨hy, h.handle_ne hx (.queue d') hy hw'⟩
          · obtain rfl := List.mem_singleton.mp hy
            exact .inr (Function.update_self ..)
        · exact .inl ⟨hy, h.handle_ne hx (.queue d') hy hw'⟩
      | demux m => exact .inl ⟨hy, h.handle_ne hx (.demux m) hy hw'⟩
      | ui => exact .inl ⟨hy, h.handle_ne hx .ui hy hw'⟩
      | decoder d' m => exact .inl ⟨hy, h.handle_ne hx (.decoder d' m) hy hw'⟩
  · intro d'
    rw [hpk]
    split
    · refine (List.map_append ..).symm ▸ List.Nodup.append (h.nodup d) (by simp) ?_
      rintro t ht ht'
      obtain ⟨y, hy, rfl⟩ := List.mem_map.mp ht
      rw [List.map_singleton, List.mem_singleton] at ht'
      exact h.handle_ne hx (.queue d) hy hq ht'
    · exact h.nodup d'

/-- The queue of `d` loses its front, and nobody else has the packet. -/
theorem front (h : s.Own p) {t : Player K} {d : Dec} {x : XData} {rest : List XData}
    (hq : (s.dec d).packs = x :: rest) (ht : (t.dec d).packs = rest)
    (hne : ∀ d', d' ≠ d → (t.dec d').packs = (s.dec d').packs)
    (hw : ∀ w, (∀ d', w ≠ .queue d') → t.owned w = s.owned w) :
    p x.handle = .held (.queue d) ∧ (∀ w, ∀ y ∈ t.owned w, y ∈ s.owned w ∧ y.handle ≠ x.handle) ∧
      ∀ d', ((t.dec d').packs.map XData.handle).Nodup := by
  have hx : p x.handle = .held (.queue d) := h.held (.queue d) x (by simp [owned, hq])
  have hnd := h.nodup d
  rw [hq, List.map_cons, List.nodup_cons] at hnd
  refine ⟨hx, fun w y hy => ?_, fun d' => ?_⟩
  · by_cases hwd : w = .queue d
    · subst hwd
      have hy : y ∈ (t.dec d).packs := hy
      rw [ht] at hy
      refine ⟨?_, fun he => hnd.1 (List.mem_map.mpr ⟨y, hy, he⟩)⟩
      simp [owned, hq, hy]
    · have ho : t.owned w = s.owned w := by
        by_cases hqueue : ∃ d', w = .queue d'
        · obtain ⟨d', rfl⟩ := hqueue
          refine hne d' ?_
          rintro rfl
          exact hwd rfl
        · exact hw w fun d' he => hqueue ⟨d', he⟩
      rw [ho] at hy
      exact ⟨hy, h.handle_ne hx w hy hwd⟩
  · by_cases hd : d' = d
    · rw [hd, ht]
      exact hnd.2
    · rw [hne d' hd]
      exact h.nodup d'

theorem popped (h : s.Own p) {d : Dec} {n : ℕ} {x : XData} {rest : List XData}
    (hq : (s.dec d).packs = x :: rest) :
    ∃ p', (s.popped d n x rest).Own p' ∧ p' x.handle = .held (.decoder d n) := by
  obtain ⟨hx, hown, hnd⟩ := h.front (t := s.popped d n x rest) hq (by simp [Player.popped, Player.setDec, setPacks, emit])
    (fun d' hd => by simp [Player.popped, Player.setDec, setPacks, emit, hd]) fun w hw => by
      cases w with
      | queue d' => exact absurd rfl (hw d')
      | _ => rfl
  refine ⟨_, h.event (e := .pass x.handle (.queue d) (.decoder d n)) rfl (Custody.step_pass hx) ?_ le_rfl
    (h.lt_fresh hx) (fun w y hy => .inl (hown w y hy)) hnd, Function.update_self ..⟩
  rintro t a b ⟨⟩
  exact Nat.one_lt_two

theorem send (h : s.Own p) {w : Holder} {x : XData} (hx : p x.handle = .held w) :
    (s.emit (.send w x)).Own p := by
  refine h.event (e := .use x.handle w) rfl (Custody.step_use hx) (by rintro t a b ⟨⟩) le_rfl
    (h.lt_fresh hx) (fun w' y hy => ?_) h.nodup
  exact .inr (h.held w' y hy)

theorem drop (h : s.Own p) {w : Holder} {x : XData} (hx : p x.handle = .held w) (hw : s.owned w = []) :
    ∃ p', (s.emit (.drop w x)).Own p' := by
  refine ⟨_, h.event (e := .free x.handle w) rfl (Custody.step_free hx) (by rintro t a b ⟨⟩) le_rfl
    (h.lt_fresh hx) (fun w' y hy => .inl ⟨hy, h.handle_ne hx w' hy ?_⟩) h.nodup⟩
  rintro rfl
  exact absurd (hw ▸ hy : y ∈ []) (List.not_mem_nil)

theorem dropFront (h : s.Own p) {d : Dec} {x : XData} {rest : List XData} (hq : (s.dec d).packs = x :: rest) :
    ∃ p', ((s.setDec d { s.dec d with packs := rest }).emit (.drop (.queue d) x)).Own p' := by
  obtain ⟨hx, hown, hnd⟩ := h.front
    (t := (s.setDec d { s.dec d with packs := rest }).emit (.drop (.queue d) x)) hq (by simp [Player.setDec, emit])
    (fun d' hd => by simp [Player.setDec, emit, hd]) fun w hw => by
      cases w with
      | queue d' => exact absurd rfl (hw d')
      | _ => rfl
  exact ⟨_, h.event (e := .free x.handle (.queue d)) rfl (Custody.step_free hx) (by rintro t a b ⟨⟩) le_rfl
    (h.lt_fresh hx) (fun w y hy => .inl (hown w y hy)) hnd⟩

theorem dropAll (h : s.Own p) (d : Dec) :
    ∃ p', Own { s.setDec d { s.dec d with packs := [] } with
      log := ((s.dec d).packs.map (.drop (.queue d))).reverse ++ s.log } p' := by
  generalize hl : (s.dec d).packs = l
  induction l generalizing s p with
  | nil =>
    refine ⟨p, h.setDec (d := d) (D := { s.dec d with packs := [] }) hl.symm⟩
  | cons x rest ih =>
    obtain ⟨p₁, h₁⟩ := h.dropFront hl
    obtain ⟨p₂, h₂⟩ := ih h₁ (by simp [Player.setDec, emit])
    refine ⟨p₂, ?_⟩
    simpa [Player.setDec, emit] using h₂

theorem clearDec (h : s.Own p) {d : Dec} (hs : s.clearDec d = some s') : ∃ p', s'.Own p' := by
  unfold Player.clearDec at hs
  split at hs <;> cases hs
  obtain ⟨p', h'⟩ := h.dropAll d
  refine ⟨p', ?_⟩
  have := h'.setDec (d := d) (D := (s.dec d).clear) (by simp [Player.setDec, FFDecode.clear])
  simpa [Player.setDec] using this

end Own

/-! ### The shape of the threads -/

end Player

def DemuxPc.Matched : DemuxPc → Prop
  | .update u => u.Matched
  | _ => True

def Cmd.Matched : Cmd → Prop
  | .seek _ _ (.update _ u) => u.Matched
  | _ => True

/-- A call of `Seek` that has not begun. -/
def Cmd.Ready : Cmd → Prop
  | .seek _ _ pc => pc = .lock
  | _ => True

theorem Cmd.Ready.owned {c : Cmd} (h : c.Ready) : c.owned = [] := by
  cases c <;> try rfl
  cases h; rfl

theorem Cmd.Ready.matched {c : Cmd} (h : c.Ready) : c.Matched := by
  cases c <;> try trivial
  cases h; trivial

theorem Call.program_ready (c : Call) : ∀ x ∈ c.program, x.Ready := by
  cases c with
  | start sl => cases sl <;> simp [Call.program, startCmds, startThread, Cmd.Ready]
  | _ =>
    simp [Call.program, closeCmds, openCmds, pauseCmds, seekEnd, Cmd.Ready]

namespace Player
variable {L : FFmpeg K} {s s' : Player K}

/-- `vDecode` never decodes audio, and no thread passes a packet on to the wrong decoder. -/
structure Sorted (s : Player K) : Prop where
  video : (s.dec .video).isAudio = false
  demux : ∀ n, (s.demuxW n).Matched
  ui : ∀ c ∈ s.ui.head?, c.Matched
  tail : ∀ c ∈ s.ui.tail, c.Ready

theorem updates_owned {w : Holder} {u : UpdatePc} {r : Option UpdatePc} (h : Updates w s u s' r)
    (hu : u.Matched) (hv : (s.dec .video).isAudio = false)
    (ha : ∀ x, u = .enter .audio x → x.isAudio = false → (s.dec .audio).isAudio = true) :
    (∀ u' ∈ r, u'.Matched) ∧ ((s' = s ∧ ∀ u' ∈ r, u'.owned ⊆ u.owned) ∨
      ∃ d x, s' = s.pushed w d x ∧ u.owned = [x] ∧ ∀ u' ∈ r, u'.owned = []) := by
  cases h with
  | @skip d x h =>
    cases d with
    | video =>
      have hx : x.isAudio = true := by simpa [hv] using h
      refine ⟨?_, .inl ⟨rfl, ?_⟩⟩ <;> rintro _ ⟨⟩
      · trivial
      · simp [UpdatePc.owned, hx]
    | audio => exact ⟨by rintro _ ⟨⟩, .inl ⟨rfl, by rintro _ ⟨⟩⟩⟩
  | @accept d x h =>
    cases d with
    | video =>
      refine ⟨?_, .inl ⟨rfl, ?_⟩⟩ <;> rintro _ ⟨⟩
      · simp [UpdatePc.Matched, h, hv]
      · simp [UpdatePc.owned]
    | audio =>
      have hx : x.isAudio = true := by
        by_contra hx
        have hx : x.isAudio = false := by simpa using hx
        rw [hx, ha x rfl hx] at h
        cases h
      refine ⟨?_, .inl ⟨rfl, ?_⟩⟩ <;> rintro _ ⟨⟩
      · simp [UpdatePc.Matched, hx]
      · simp [UpdatePc.owned, hx]
  | @lost d x h =>
    cases d with
    | video =>
      have hx : x.isAudio = false := by simpa [UpdatePc.Matched] using hu
      refine ⟨?_, .inl ⟨rfl, ?_⟩⟩ <;> rintro _ ⟨⟩
      · trivial
      · simp [UpdatePc.owned, hx]
    | audio => exact ⟨by rintro _ ⟨⟩, .inl ⟨rfl, by rintro _ ⟨⟩⟩⟩
  | @go d x h =>
    refine ⟨?_, .inl ⟨rfl, ?_⟩⟩ <;> rintro _ ⟨⟩
    · exact hu
    · exact List.Subset.refl _
  | @push d x hm h =>
    cases d with
    | video =>
      have hx : x.isAudio = false := by simpa [UpdatePc.Matched] using hu
      refine ⟨?_, .inr ⟨_, x, rfl, rfl, ?_⟩⟩ <;> rintro _ ⟨⟩
      · trivial
      · simp [UpdatePc.owned, hx]
    | audio => exact ⟨by rintro _ ⟨⟩, .inr ⟨_, x, rfl, rfl, by rintro _ ⟨⟩⟩⟩
  | @full d x hm h =>
    refine ⟨?_, .inl ⟨rfl, ?_⟩⟩ <;> rintro _ ⟨⟩
    · exact hu
    · exact List.Subset.refl _

theorem updates_state {w : Holder} {u : UpdatePc} {r : Option UpdatePc} (h : Updates w s u s' r) :
    s' = s ∨ ∃ d x, s' = s.pushed w d x := by
  cases h with
  | push => exact .inr ⟨_, _, rfl⟩
  | _ => exact .inl rfl

theorem setDec_isAudio {d : Dec} {D : FFDecode K} (hD : D.isAudio = (s.dec d).isAudio) (d' : Dec) :
    ((s.setDec d D).dec d').isAudio = (s.dec d').isAudio := setDec_congr FFDecode.isAudio s hD d'

theorem updates_isAudio {w : Holder} {u : UpdatePc} {r : Option UpdatePc} (h : Updates w s u s' r) (d : Dec) :
    (s'.dec d).isAudio = (s.dec d).isAudio := (congrArg FFDecode.isAudio (h.dec_fields d) :)

theorem sendPacket_isAudio (D : FFDecode K) (x : XData) : (D.sendPacket L x).2.isAudio = D.isAudio := by
  unfold FFDecode.sendPacket
  split
  · rfl
  · split <;> rfl

theorem recvFrame_isAudio (D : FFDecode K) : (D.recvFrame L).2.isAudio = D.isAudio := by
  unfold FFDecode.recvFrame
  split <;> rfl

theorem sendPacket_packs (D : FFDecode K) (x : XData) : (D.sendPacket L x).2.packs = D.packs := by
  unfold FFDecode.sendPacket
  split
  · rfl
  · split <;> rfl

theorem recvFrame_packs (D : FFDecode K) : (D.recvFrame L).2.packs = D.packs := by
  unfold FFDecode.recvFrame
  split <;> rfl

theorem getVideoPara_type {d : FFDemux} {p : AVCodecParameters} (h : d.getVideoPara.1.para = some p) :
    p.codec_type = .video := by
  unfold FFDemux.getVideoPara at h
  split at h
  · cases h
  · rename_i ic _
    simp only at h
    split at h
    · cases h
    · rename_i hn
      have hn := not_lt.mp hn
      have hl := ic.file.best_lt .video hn
      rw [List.getElem?_eq_getElem hl, Option.map_some, Option.some.injEq] at h
      rw [← h]
      exact ic.file.best_type .video hn

/-- A decoder opened with the parameters of the best video stream does not decode audio. -/
theorem open_isAudio (D : FFDecode K) (o : OpenCodec) (d : FFDemux) (h : D.isAudio = false) :
    (D.open L d.getVideoPara.1 o).isAudio = false := by
  unfold FFDecode.open
  split
  · exact h
  · exact h
  · exact h
  · rename_i p hp
    simp [getVideoPara_type hp]

theorem cmdStep_ui {cs : List Cmd} {c : Cmd} (hs : s.cmdStep L cs c = some s') :
    s'.ui = cs ∨ s'.ui = [.unlock, .ret .open] ∨
      ∃ pos f pc t pc', c = .seek pos f pc ∧ s.seekStep L pos f pc = some (t, some pc') ∧
        s' = { t with ui := .seek pos f pc' :: cs } := by
  cases c with
  | seek pos f pc =>
    simp only [cmdStep] at hs
    rcases hp : s.seekStep L pos f pc with _ | ⟨t, _ | pc'⟩ <;> rw [hp] at hs <;> cases hs
    · exact .inl rfl
    · exact .inr (.inr ⟨pos, f, pc, t, pc', rfl, hp, rfl⟩)
  | openDemux o =>
    simp only [cmdStep] at hs
    split at hs <;> cases hs
    · exact .inl rfl
    · exact .inr (.inl rfl)
  | lock | flush =>
    simp only [cmdStep] at hs
    split at hs <;> cases hs
    exact .inl rfl
  | openResample b =>
    simp only [cmdStep] at hs
    split at hs <;> cases hs
    exact .inl rfl
  | clear d =>
    obtain ⟨t, -, rfl⟩ := Option.map_eq_some_iff.mp hs
    exact .inl rfl
  | _ => cases hs; exact .inl rfl

/-- The buffers that are dropped are no packets. -/
theorem clearFrames_custody : s.clearFrames.log.filterMap Event.custody = s.log.filterMap Event.custody := by
  simp only [clearFrames, List.filterMap_append, List.filterMap_reverse, List.filterMap_map]
  simp [Event.custody, Function.comp_def]

theorem callEvent_custody (a : IAudioPlay) (pc : CallPc) :
    (callEvent a pc).toList.filterMap Event.custody = [] := by
  cases pc with
  | «section» => rcases hf : a.frames with _ | ⟨x, rest⟩ <;> simp [callEvent, hf, Event.custody]
  | _ => rfl

namespace Own
variable {p : ℕ → Custody.Place Holder}

theorem plain (h : s.Own p) (hl : s'.log.filterMap Event.custody = s.log.filterMap Event.custody)
    (hf : s'.fresh = s.fresh) (hD : ∀ n, (s'.demuxW n).owned ⊆ (s.demuxW n).owned)
    (hW : ∀ d n, (s'.decW d n).owned ⊆ (s.decW d n).owned) (hp : ∀ d, (s'.dec d).packs = (s.dec d).packs)
    (hu : ∀ c ∈ s'.ui.head?, c.owned = []) : s'.Own p := by
  refine h.quiet hl hf.ge (fun w x hx => .inl ?_) hp
  cases w with
  | demux n => exact hD n hx
  | decoder d n => exact hW d n hx
  | queue d =>
    show x ∈ (s.dec d).packs
    rw [← hp d]
    exact hx
  | ui =>
    simp only [owned] at hx
    rcases hh : s'.ui.head? with _ | c
    · simp [hh] at hx
    · simp [hh, hu c hh] at hx

/-- `Notify` by the thread `w`, which moves on to a place where it holds what `r` has still to pass on:
`move` is that move. -/
theorem updates (h : s.Own p) {w : Holder} {u : UpdatePc} {r : Option UpdatePc} (hu : Updates w s u s' r)
    (hm : u.Matched) (hv : (s.dec .video).isAudio = false)
    (ha : ∀ x, u = .enter .audio x → x.isAudio = false → (s.dec .audio).isAudio = true)
    (hx : ∀ x ∈ u.owned, p x.handle = .held w) (hw : w.rank = 0) (move : Player K → Player K)
    (hmove : ∀ s : Player K, s.Own p → (∀ u' ∈ r, ∀ x ∈ u'.owned, p x.handle = .held w) → (move s).Own p)
    (hempty : (∀ u' ∈ r, u'.owned = []) → (move s).owned w = [])
    (hcomm : ∀ d x, move (s.pushed w d x) = (move s).pushed w d x) : ∃ p', (move s').Own p' := by
  obtain ⟨-, ⟨rfl, hr⟩ | ⟨d, x, rfl, hux, hr⟩⟩ := updates_owned hu hm hv ha
  · exact ⟨p, hmove s' h fun u' hu' x hx' => hx x (hr u' hu' hx')⟩
  · have h' := hmove s h fun u' hu' y hy => by rw [hr u' hu'] at hy; cases hy
    rw [hcomm]
    exact h'.pushed (hx x (by simp [hux])) (hempty hr) hw

theorem demuxStep (h : s.Own p) (hS : s.Sorted) {n : ℕ} (ha : AudioKnown (.demux n) s)
    (hs : s.demuxStep n = some s') : ∃ p', s'.Own p' := by
  obtain ⟨t, pc, hd, rfl⟩ := demuxes hs
  generalize hpc : s.demuxW n = pc₀ at hd
  have hx : ∀ x ∈ pc₀.owned, p x.handle = .held (.demux n) := fun x hx =>
    h.held (.demux n) x (by simpa [owned, hpc] using hx)
  have hmux : ∀ m, Own { s with demuxMux := m } p := fun m =>
    h.quiet rfl le_rfl (fun _ _ hx => .inl hx) fun _ => rfl
  cases hd with
  | exit | more | paused | run => exact ⟨p, h.moveDemux (by simp [DemuxPc.owned])⟩
  | read hr =>
    obtain ⟨p', h', hp'⟩ := h.readBy (.demux n)
    refine ⟨p', h'.moveDemux fun x hx => ?_⟩
    obtain rfl : x = _ := by simpa [DemuxPc.owned] using hx
    exact hp' (readBy_data hr)
  | nothing hr =>
    obtain ⟨p', h', -⟩ := h.readBy (.demux n)
    exact ⟨p', h'.moveDemux (by simp [DemuxPc.owned])⟩
  | @notify x hm =>
    exact ⟨p, (hmux _).moveDemux fun y hy => hx y (by simpa [DemuxPc.owned, UpdatePc.owned] using hy)⟩
  | @update u s' u' hu =>
    refine h.updates hu ?_ hS.video (fun x hx => ha x (by simp [offered, hpc, hx])) hx rfl
      (fun s => s.setDemux n (.update u')) (fun s hs hr => hs.moveDemux fun x hx => hr u' rfl x hx) ?_
      fun _ _ => rfl
    · have := hS.demux n
      rwa [hpc] at this
    · intro hr
      simp [owned, setDemux, DemuxPc.owned, hr u' rfl]
  | @done u s' hu =>
    refine h.updates hu ?_ hS.video (fun x hx => ha x (by simp [offered, hpc, hx])) hx rfl
      (fun s => { s with demuxMux := none }.setDemux n .exitTest) (fun s hs _ => ?_) ?_ fun _ _ => rfl
    · have := hS.demux n
      rwa [hpc] at this
    · exact Own.moveDemux (s := { s with demuxMux := none })
        (hs.quiet rfl le_rfl (fun _ _ hx => .inl hx) fun _ => rfl) (by simp [DemuxPc.owned])
    · intro _
      simp [owned, setDemux, DemuxPc.owned]

theorem decStep (h : s.Own p) {d : Dec} {n : ℕ} (hs : s.decStep L d n = some s') : ∃ p', s'.Own p' := by
  obtain ⟨t, pc, hd, rfl⟩ := decodes hs
  generalize hpc : s.decW d n = pc₀ at hd
  have hx : ∀ x ∈ pc₀.owned, p x.handle = .held (.decoder d n) := fun x hx =>
    h.held (.decoder d n) x (by simpa [owned, hpc] using hx)
  -- steps that change neither the queue nor the history of the packets
  have hq : ∀ {t : Player K} (pc : DecPc), t.Own p → pc.owned ⊆ pc₀.owned → ∃ p', (t.setDecW d n pc).Own p' :=
    fun pc ht ho => ⟨p, ht.moveDecW fun x hx' => hx x (ho hx')⟩
  cases hd with
  | exit | more | paused | run | shut | empty => exact hq _ h (by simp [DecPc.owned])
  | @pop x rest hm hg hp =>
    obtain ⟨p', h', hp'⟩ := h.popped (n := n) hp
    refine ⟨p', h'.moveDecW fun y hy => ?_⟩
    obtain rfl : y = x := by simpa [DecPc.owned] using hy
    exact hp'
  | @sent x hok | @unsent x hok =>
    refine hq _ ((h.setDec (sendPacket_packs _ x)).send (w := .decoder d n) (x := x) (hx x ?_)) ?_ <;>
      simp [DecPc.owned]
  | innerExit | inner | noData | refused | pcmLost | pcmGo | pcmFull =>
    exact hq _ h (by simp [DecPc.owned])
  | drained | recv => exact hq _ (h.setDec (recvFrame_packs _)) (by simp [DecPc.owned])
  | «show» | notify =>
    exact hq _ (t := s.emit _) (h.quiet rfl le_rfl (fun _ _ hx => .inl hx) fun _ => rfl) (by simp [DecPc.owned])
  | leaked =>
    exact hq _ (t := { s with resampleMux := true })
      (h.quiet rfl le_rfl (fun _ _ hx => .inl hx) fun _ => rfl) (by simp [DecPc.owned])
  | @pcm x f y =>
    exact hq (.pcmExit x y) (t := { s with fresh := s.fresh + 1 }.emit (.resampled y))
      (h.quiet rfl (Nat.le_succ _) (fun _ _ hx => .inl hx) fun _ => rfl) (by simp [DecPc.owned])
  | @pcmPush x y =>
    exact hq (.innerExit x) (t := { s with audio := { s.audio with frames := s.audio.frames ++ [y] } }.emit (.queued y))
      (h.quiet rfl le_rfl (fun _ _ hx => .inl hx) fun _ => rfl) (by simp [DecPc.owned])
  | @drop x =>
    obtain ⟨p', h'⟩ := (h.moveDecW (d := d) (n := n)
      fun x (hx : x ∈ DecPc.exitTest.owned) => absurd hx (by simp [DecPc.owned])).drop (w := .decoder d n) (x := x) (hx x (by simp [DecPc.owned])) (by simp [owned, setDecW, DecPc.owned])
    exact ⟨p', h'.quiet rfl le_rfl (fun _ _ hx => .inl hx) fun _ => rfl⟩

theorem seekStep (h : s.Own p) (hS : s.Sorted) {pos : ℚ} {f : SeekFrame} {pc : SeekPc} {r : Option SeekPc}
    {rest cs : List Cmd} (hui : s.ui = .seek pos f pc :: rest) (ha : AudioKnown .ui s)
    (hcs : (cs.head?.map Cmd.owned).getD [] = (r.map SeekPc.owned).getD [])
    (hs : s.seekStep L pos f pc = some (s', r)) : ∃ p', Own { s' with ui := cs } p' := by
  have hx : ∀ x ∈ pc.owned, p x.handle = .held .ui := fun x hx =>
    h.held .ui x (by simpa [owned, hui, Cmd.owned] using hx)
  -- the state in which the controller holds nothing
  have h₀ : Own { s with ui := [] } p := h.moveUi (by simp)
  have hq : ∀ {t : Player K}, Own t p → (∀ x ∈ (r.map SeekPc.owned).getD [], x ∈ pc.owned) →
      ∃ p', Own { t with ui := cs } p' := fun ht ho =>
    ⟨p, ht.moveUi fun x hx' => hx x (ho x (hcs ▸ hx'))⟩
  cases pc with
  | lock =>
    simp only [Player.seekStep] at hs
    split at hs <;> cases hs
    exact hq (t := { s with mux := true })
      (h.quiet rfl le_rfl (fun _ _ hx => .inl hx) fun _ => rfl) (by simp [SeekPc.owned])
  | clear d =>
    obtain ⟨t, ht, he⟩ := Option.map_eq_some_iff.mp hs
    cases he
    obtain ⟨p', h'⟩ := h.clearDec ht
    exact ⟨p', Own.moveUi (s := t.emit (.flushed d))
      (h'.quiet rfl le_rfl (fun _ _ hx => .inl hx) fun _ => rfl) (by simp [hcs, SeekPc.owned])⟩
  | flush d =>
    simp only [Player.seekStep] at hs
    split at hs <;> cases hs
    refine hq (h.setDec (D := (s.dec d).flush L) rfl) ?_
    simp only [Option.map_some, Option.getD_some]
    split <;> simp [SeekPc.owned]
  | clearFrames =>
    cases hs
    exact hq (t := s.clearFrames)
      (h.quiet clearFrames_custody le_rfl (fun _ _ hx => .inl hx) fun _ => rfl) (by simp [SeekPc.owned])
  | reposition =>
    cases hs
    refine ⟨p, h₀.quiet ?_ ?_ ?_ ?_⟩ <;> split
    · rfl
    · rfl
    · exact le_rfl
    · exact le_rfl
    · exact fun w x hx => by
        cases w with
        | ui => simp [owned, hcs, SeekPc.owned] at hx
        | _ => exact .inl hx
    · exact fun w x hx => by
        cases w with
        | ui => simp [owned, hcs, SeekPc.owned] at hx
        | _ => exact .inl hx
    · exact fun _ => rfl
    · exact fun _ => rfl
  | target =>
    cases hs
    exact hq h (by simp [SeekPc.owned])
  | exitTest t =>
    cases hs
    refine hq h ?_
    simp only [Option.map_some, Option.getD_some]
    split <;> simp [SeekPc.owned]
  | read t =>
    simp only [Player.seekStep, Option.some.injEq, Prod.mk.injEq] at hs
    obtain ⟨rfl, rfl⟩ := hs
    obtain ⟨p', h', hp'⟩ := h.readBy .ui
    refine ⟨p', h'.moveUi fun x hx' => ?_⟩
    rw [hcs] at hx'
    simp only [Option.map_some, Option.getD_some] at hx'
    split_ifs at hx' with h1 h2 h3 <;> simp only [SeekPc.owned, List.not_mem_nil, List.mem_singleton] at hx'
    all_goals
      subst hx'
      exact hp' (readBy_data (not_le.mp h1))
  | skip t x =>
    cases hs
    obtain ⟨p', h'⟩ := h₀.drop (w := .ui) (hx x (by simp [SeekPc.owned])) (by simp [owned])
    exact ⟨p', h'.moveUi (by simp [hcs, SeekPc.owned])⟩
  | notify t x =>
    simp only [Player.seekStep] at hs
    split at hs <;> cases hs
    exact hq (t := { s with demuxMux := some .ui })
      (h.quiet rfl le_rfl (fun _ _ hx => .inl hx) fun _ => rfl) (by simp [SeekPc.owned, UpdatePc.owned])
  | update t u =>
    have hm : u.Matched := hS.ui (.seek pos f (.update t u)) (by simp [hui])
    have ha' : ∀ x, u = .enter .audio x → x.isAudio = false → (s.dec .audio).isAudio = true :=
      fun x hx => ha x (by simp [offered, hui, hx])
    simp only [Player.seekStep] at hs
    rcases hu : s.update .ui u with _ | ⟨t', _ | u'⟩ <;> rw [hu] at hs <;> cases hs
    · refine h.updates (Player.updates hu) hm hS.video ha' hx rfl
        (fun s => { s with demuxMux := none, ui := cs }) (fun s hs hr => ?_) ?_ fun _ _ => rfl
      · exact Own.moveUi (s := { s with demuxMux := none })
          (hs.quiet rfl le_rfl (fun _ _ hx => .inl hx) fun _ => rfl) (by simp [hcs, SeekPc.owned])
      · intro _
        simp [owned, hcs, SeekPc.owned]
    · refine h.updates (Player.updates hu) hm hS.video ha' hx rfl
        (fun s => { s with ui := cs }) (fun s hs hr => ?_) ?_ fun _ _ => rfl
      · exact hs.moveUi fun x hx => hr u' rfl x (by simpa [hcs, SeekPc.owned] using hx)
      · intro hr
        simp [owned, hcs, SeekPc.owned, hr u' rfl]
  | send t x =>
    cases hs
    refine hq ((h.setDec (d := .video) (sendPacket_packs _ x)).send (w := .ui) (x := x) (hx x ?_)) ?_ <;>
      simp [SeekPc.owned]
  | drop t x =>
    cases hs
    obtain ⟨p', h'⟩ := h₀.drop (w := .ui) (hx x (by simp [SeekPc.owned])) (by simp [owned])
    exact ⟨p', h'.moveUi (by simp [hcs, SeekPc.owned])⟩
  | recv t =>
    simp only [Player.seekStep, Option.some.injEq, Prod.mk.injEq] at hs
    obtain ⟨rfl, rfl⟩ := hs
    refine hq (h.setDec (recvFrame_packs _)) ?_
    simp only [Option.map_some, Option.getD_some]
    split_ifs <;> simp [SeekPc.owned]
  | unlock =>
    cases hs
    exact hq (t := { s with mux := false })
      (h.quiet rfl le_rfl (fun _ _ hx => .inl hx) fun _ => rfl) (by simp)

theorem uiStep (h : s.Own p) (hS : s.Sorted) (ha : AudioKnown .ui s) (hs : s.uiStep L = some s') :
    ∃ p', s'.Own p' := by
  unfold Player.uiStep at hs
  rcases hui : s.ui with _ | ⟨c, cs⟩ <;> rw [hui] at hs
  · cases hs
  simp only at hs
  have htail : ∀ c ∈ cs, c.Ready := fun c hc => hS.tail c (by simpa [hui] using hc)
  have hhead : ∀ c ∈ cs.head?, c.owned = [] := fun c hc => (htail c (List.mem_of_mem_head? hc)).owned
  have hnone : (cs.head?.map Cmd.owned).getD [] = [] := by
    rcases hh : cs.head? with _ | c
    · rfl
    · simp [hhead c hh]
  -- the commands that change neither the history, the threads nor the queues
  have hplain : ∀ {t : Player K}, t.log.filterMap Event.custody = s.log.filterMap Event.custody → t.fresh = s.fresh →
      t.demuxW = s.demuxW → t.decW = s.decW → (∀ d, (t.dec d).packs = (s.dec d).packs) → t.ui = cs → ∃ p', t.Own p' := by
    intro t h1 h2 h3 h4 h5 h6
    exact ⟨p, h.plain h1 h2 (by simp [h3]) (by simp [h4]) h5 (by rw [h6]; exact hhead)⟩
  have hdec : ∀ {d : Dec} {D : FFDecode K}, D.packs = (s.dec d).packs →
      ∃ p', Own { s.setDec d D with ui := cs } p' := fun hD =>
    ⟨p, (h.setDec hD).moveUi (by simp [hnone])⟩
  cases c with
  | lock =>
    simp only [cmdStep] at hs
    split at hs <;> cases hs
    exact hplain rfl rfl rfl rfl (fun _ => rfl) rfl
  | unlock | exit | pause | closeDemux | videoPara | audioPara | ret =>
    cases hs
    exact hplain rfl rfl rfl rfl (fun _ => rfl) rfl
  | clearFrames =>
    cases hs
    exact hplain clearFrames_custody rfl rfl rfl (fun _ => rfl) rfl
  | openDemux o =>
    simp only [cmdStep] at hs
    split at hs <;> cases hs
    · exact hplain rfl rfl rfl rfl (fun _ => rfl) rfl
    · exact ⟨p, h.plain rfl rfl (fun _ => List.Subset.refl _) (fun _ _ => List.Subset.refl _) (fun _ => rfl)
        (by simp [Cmd.owned])⟩
  | openResample b =>
    simp only [cmdStep] at hs
    split at hs <;> cases hs
    exact hplain rfl rfl rfl rfl (fun _ => rfl) rfl
  | spawn o =>
    cases hs
    cases o with
    | demux =>
      exact ⟨p, h.plain rfl rfl (fun n => by
        simp only [Player.spawn, setDemux, Function.update_apply]
        split <;> simp [DemuxPc.owned]) (fun _ _ => List.Subset.refl _) (fun _ => rfl) hhead⟩
    | dec d =>
      refine ⟨p, h.plain rfl rfl (fun n => List.Subset.refl _) (fun d' n => ?_) (fun _ => rfl) hhead⟩
      simp only [Player.spawn, setDecW, Function.update_apply]
      split
      · rename_i hd
        subst hd
        simp only [Function.update_apply]
        split <;> simp [DecPc.owned]
      · simp
    | player | audioPlay => exact hplain rfl rfl rfl rfl (fun _ => rfl) rfl
  | clear d =>
    obtain ⟨t, ht, rfl⟩ := Option.map_eq_some_iff.mp hs
    obtain ⟨p', h'⟩ := h.clearDec ht
    have h'' : (t.emit (.cleared d)).Own p' := h'.quiet rfl le_rfl (fun _ _ hx => .inl hx) fun _ => rfl
    exact ⟨p', h''.moveUi (by simp [hnone])⟩
  | flush d =>
    simp only [cmdStep] at hs
    split at hs <;> cases hs
    exact hdec rfl
  | free d => cases hs; exact hdec rfl
  | openDec d o =>
    cases hs
    refine hdec ?_
    unfold FFDecode.open
    split <;> rfl
  | seek pos f pc =>
    simp only [cmdStep] at hs
    rcases hp : s.seekStep L pos f pc with _ | ⟨t, _ | pc'⟩ <;> rw [hp] at hs <;> cases hs
    · exact h.seekStep hS hui ha (by simp [hnone]) hp
    · exact h.seekStep hS hui ha (by simp [Cmd.owned]) hp

theorem step (h : s.Own p) (hS : s.Sorted) {a : Act} (ha : AudioKnown a s) (hs : s.step L a = some s') :
    ∃ p', s'.Own p' := by
  cases a with
  | demux n => exact h.demuxStep hS ha hs
  | dec d n => exact h.decStep hs
  | sync n =>
    simp only [Player.step, syncStep] at hs
    split at hs
    · cases hs
    · cases hs
      exact ⟨p, h.quiet rfl le_rfl (fun _ _ hx => .inl hx) fun _ => rfl⟩
    · split at hs <;> cases hs
      have h' := h.setDec (d := .video) (D := { s.dec .video with synPts := s.audio.pts }) rfl
      exact ⟨p, h'.quiet rfl le_rfl (fun _ _ hx => .inl hx) fun _ => rfl⟩
  | device =>
    simp only [Player.step, deviceStep] at hs
    split at hs <;> cases hs
    exact ⟨p, h.quiet rfl le_rfl (fun _ _ hx => .inl hx) fun _ => rfl⟩
  | call =>
    obtain ⟨pc, -, rfl⟩ := Option.map_eq_some_iff.mp hs
    refine ⟨p, h.quiet ?_ le_rfl (fun _ _ hx => .inl hx) fun _ => rfl⟩
    simp only [List.filterMap_append, callEvent_custody, List.nil_append]
  | ui => exact h.uiStep hS ha hs
  | request c =>
    simp only [Player.step] at hs
    split at hs <;> cases hs
    have h' : (s.emit (.called c.kind)).Own p := h.quiet rfl le_rfl (fun _ _ hx => .inl hx) fun _ => rfl
    refine ⟨p, h'.moveUi fun x hx => ?_⟩
    rcases hh : c.program.head? with _ | b
    · simp [hh] at hx
    · simp [hh, (c.program_ready b (List.mem_of_mem_head? hh)).owned] at hx

end Own

/-! ### `Sorted` along a run -/

theorem decodes_isAudio {d : Dec} {n : ℕ} {pc pc' : DecPc} (h : Decodes L d n s pc s' pc') (d' : Dec) :
    (s'.dec d').isAudio = (s.dec d').isAudio := (congrArg FFDecode.isAudio (h.dec_fields d') :)

theorem seekStep_isAudio {pos : ℚ} {f : SeekFrame} {pc : SeekPc} {r : Option SeekPc}
    (hs : s.seekStep L pos f pc = some (s', r)) (d' : Dec) : (s'.dec d').isAudio = (s.dec d').isAudio := by
  cases pc with
  | lock =>
    simp only [seekStep] at hs
    split at hs <;> cases hs
    rfl
  | clear d =>
    obtain ⟨t, ht, he⟩ := Option.map_eq_some_iff.mp hs
    cases he
    unfold clearDec at ht
    split at ht <;> cases ht
    exact setDec_isAudio (s := s) (D := (s.dec d).clear) rfl d'
  | flush d =>
    simp only [seekStep] at hs
    split at hs <;> cases hs
    exact setDec_isAudio (s := s) (D := (s.dec d).flush L) rfl d'
  | reposition =>
    cases hs
    split <;> rfl
  | read t =>
    simp only [seekStep, Option.some.injEq, Prod.mk.injEq] at hs
    obtain ⟨rfl, -⟩ := hs
    simp only [readBy]
    split <;> rfl
  | notify t x =>
    simp only [seekStep] at hs
    split at hs <;> cases hs
    rfl
  | update t u =>
    simp only [seekStep] at hs
    rcases hu : s.update .ui u with _ | ⟨t', _ | u'⟩ <;> rw [hu] at hs <;> cases hs <;>
      exact updates_isAudio (updates hu) d'
  | send t x => cases hs; exact setDec_isAudio (s := s) (sendPacket_isAudio _ _) d'
  | recv t => cases hs; exact setDec_isAudio (s := s) (recvFrame_isAudio _) d'
  | _ => cases hs; rfl

theorem cmdStep_video {cs : List Cmd} {c : Cmd} (hs : s.cmdStep L cs c = some s')
    (hv : (s.dec .video).isAudio = false) : (s'.dec .video).isAudio = false := by
  have hset : ∀ {d : Dec} {D : FFDecode K}, D.isAudio = (s.dec d).isAudio →
      ((s.setDec d D).dec .video).isAudio = false := fun hD => (setDec_isAudio hD .video).trans hv
  cases c with
  | lock | openDemux | openResample =>
    simp only [cmdStep] at hs
    split at hs <;> cases hs <;> exact hv
  | spawn o => cases hs; cases o <;> exact hv
  | clear d =>
    obtain ⟨t, ht, rfl⟩ := Option.map_eq_some_iff.mp hs
    unfold clearDec at ht
    split at ht <;> cases ht
    exact hset (D := (s.dec d).clear) rfl
  | flush d =>
    simp only [cmdStep] at hs
    split at hs <;> cases hs
    exact hset (D := (s.dec d).flush L) rfl
  | free d => cases hs; exact hset (D := (s.dec d).free) rfl
  | openDec d o =>
    cases hs
    cases d with
    | video =>
      simpa [setDec] using open_isAudio (L := L) (s.dec .video) o s.demux hv
    | audio => simpa [setDec] using hv
  | seek pos f pc =>
    simp only [cmdStep] at hs
    rcases hp : s.seekStep L pos f pc with _ | ⟨t, _ | pc'⟩ <;> rw [hp] at hs <;> cases hs <;>
      exact (seekStep_isAudio hp .video).trans hv
  | _ => cases hs; exact hv

theorem cmdStep_demuxW {cs : List Cmd} {c : Cmd} (hs : s.cmdStep L cs c = some s') (n : ℕ) :
    s'.demuxW n = s.demuxW n ∨ s'.demuxW n = .exitTest := by
  cases c with
  | lock | flush | openDemux | openResample =>
    simp only [cmdStep] at hs
    split at hs <;> cases hs <;> exact .inl rfl
  | clear d =>
    obtain ⟨t, ht, rfl⟩ := Option.map_eq_some_iff.mp hs
    unfold clearDec at ht
    split at ht <;> cases ht
    exact .inl rfl
  | spawn o =>
    cases hs
    cases o with
    | demux =>
      simp only [spawn, setDemux, Function.update_apply]
      split
      · exact .inr rfl
      · exact .inl rfl
    | _ => exact .inl rfl
  | seek pos f pc =>
    have hr : ∀ {t : Player K} {r : Option SeekPc}, s.seekStep L pos f pc = some (t, r) →
        t.demuxW = s.demuxW := by
      intro t r ht
      cases pc with
      | lock | flush | notify =>
        simp only [seekStep] at ht
        split at ht <;> cases ht
        rfl
      | clear d =>
        obtain ⟨t', ht', he⟩ := Option.map_eq_some_iff.mp ht
        cases he
        unfold clearDec at ht'
        split at ht' <;> cases ht'
        rfl
      | reposition => cases ht; split <;> rfl
      | read t₀ =>
        simp only [seekStep, Option.some.injEq, Prod.mk.injEq] at ht
        obtain ⟨rfl, -⟩ := ht
        simp only [readBy]
        split <;> rfl
      | update t₀ u =>
        simp only [seekStep] at ht
        rcases hu : s.update .ui u with _ | ⟨t', _ | u'⟩ <;> rw [hu] at ht <;> cases ht <;>
          rcases updates_state (updates hu) with rfl | ⟨d, x, rfl⟩ <;> rfl
      | _ => cases ht; rfl
    simp only [cmdStep] at hs
    rcases hp : s.seekStep L pos f pc with _ | ⟨t, _ | pc'⟩ <;> rw [hp] at hs <;> cases hs <;>
      exact .inl (congrFun (hr hp) n)
  | _ => cases hs; exact .inl rfl

/-- What the next place of `Seek` passes on is matched. -/
theorem seekStep_matched (hS : s.Sorted) {pos : ℚ} {f : SeekFrame} {pc pc' : SeekPc} {rest : List Cmd}
    (hui : s.ui = .seek pos f pc :: rest) (ha : AudioKnown .ui s)
    (hs : s.seekStep L pos f pc = some (s', some pc')) : Cmd.Matched (.seek pos f pc') := by
  cases pc with
  | lock =>
    simp only [seekStep] at hs
    split at hs <;> cases hs
    trivial
  | clear d =>
    obtain ⟨t, ht, he⟩ := Option.map_eq_some_iff.mp hs
    cases he
    trivial
  | flush d =>
    simp only [seekStep] at hs
    split at hs <;> cases hs
    cases d <;> trivial
  | exitTest t =>
    cases hs
    simp only [Cmd.Matched]
    split_ifs <;> trivial
  | read t =>
    simp only [seekStep, Option.some.injEq, Prod.mk.injEq] at hs
    obtain ⟨-, rfl⟩ := hs
    split_ifs <;> trivial
  | notify t x =>
    simp only [seekStep] at hs
    split at hs <;> cases hs
    trivial
  | update t u =>
    have hm : u.Matched := hS.ui (.seek pos f (.update t u)) (by simp [hui])
    have ha' : ∀ x, u = .enter .audio x → x.isAudio = false → (s.dec .audio).isAudio = true :=
      fun x hx => ha x (by simp [offered, hui, hx])
    simp only [seekStep] at hs
    rcases hu : s.update .ui u with _ | ⟨t', _ | u'⟩ <;> rw [hu] at hs <;> cases hs
    · trivial
    · exact (updates_owned (updates hu) hm hS.video ha').1 u' rfl
  | recv t =>
    simp only [seekStep, Option.some.injEq, Prod.mk.injEq] at hs
    obtain ⟨-, rfl⟩ := hs
    split_ifs <;> trivial
  | unlock => cases hs
  | _ => cases hs; trivial

theorem Sorted.step (hS : s.Sorted) {a : Act} (ha : AudioKnown a s) (hs : s.step L a = some s') :
    s'.Sorted := by
  cases a with
  | demux n =>
    obtain ⟨t, pc, hd, rfl⟩ := demuxes hs
    generalize hpc : s.demuxW n = pc₀ at hd
    have hw : ∀ {t : Player K} {pc : DemuxPc}, (∀ d, (t.dec d).isAudio = (s.dec d).isAudio) →
        t.demuxW = s.demuxW → t.ui = s.ui → pc.Matched → (t.setDemux n pc).Sorted := by
      intro t pc h1 h2 h3 h4
      refine ⟨(h1 .video).trans hS.video, fun m => ?_, fun c hc => hS.ui c (by rw [← h3]; exact hc),
        fun c hc => hS.tail c (by rw [← h3]; exact hc)⟩
      simp only [setDemux, Function.update_apply, h2]
      split
      · exact h4
      · exact hS.demux m
    have hu : ∀ {u t r}, pc₀ = .update u → Updates (.demux n) s u t r →
        (∀ u' ∈ r, u'.Matched) ∧ t.demuxW = s.demuxW ∧ t.ui = s.ui := by
      intro u t r he hu
      have hm := hS.demux n
      rw [hpc, he] at hm
      refine ⟨(updates_owned hu hm hS.video fun x hx => ha x (by simp [offered, hpc, he, hx])).1, ?_⟩
      rcases updates_state hu with rfl | ⟨d, x, rfl⟩ <;> exact ⟨rfl, rfl⟩
    cases hd with
    | exit | more | paused | run => exact hw (fun _ => rfl) rfl rfl trivial
    | read | nothing =>
      refine hw ?_ ?_ ?_ trivial <;> simp only [readBy] <;> split
      all_goals first | rfl | exact fun _ => rfl
    | notify => exact hw (fun _ => rfl) rfl rfl trivial
    | update h =>
      obtain ⟨h1, h2, h3⟩ := hu rfl h
      exact hw (updates_isAudio h) h2 h3 (h1 _ rfl)
    | @done u t h =>
      obtain ⟨-, h2, h3⟩ := hu rfl h
      exact hw (t := { t with demuxMux := none }) (fun d => (updates_isAudio h d :)) h2 h3 trivial
  | dec d n =>
    obtain ⟨t, pc, hd, rfl⟩ := decodes hs
    generalize s.decW d n = pc₀ at hd
    refine ⟨(decodes_isAudio hd .video).trans hS.video, ?_, ?_, ?_⟩ <;> cases hd
    all_goals first | exact hS.demux | exact hS.ui | exact hS.tail
  | sync n =>
    simp only [Player.step, syncStep] at hs
    split at hs
    · cases hs
    · cases hs
      exact ⟨hS.video, hS.demux, hS.ui, hS.tail⟩
    · split at hs <;> cases hs
      exact ⟨(setDec_isAudio (s := s) (D := { s.dec .video with synPts := s.audio.pts }) rfl .video).trans
        hS.video, hS.demux, hS.ui, hS.tail⟩
  | device =>
    simp only [Player.step, deviceStep] at hs
    split at hs <;> cases hs
    exact ⟨hS.video, hS.demux, hS.ui, hS.tail⟩
  | call =>
    obtain ⟨pc, -, rfl⟩ := Option.map_eq_some_iff.mp hs
    exact ⟨hS.video, hS.demux, hS.ui, hS.tail⟩
  | ui =>
    simp only [Player.step, Player.uiStep] at hs
    rcases hui : s.ui with _ | ⟨c, cs⟩ <;> rw [hui] at hs
    · cases hs
    simp only at hs
    have htail : ∀ c ∈ cs, c.Ready := fun c hc => hS.tail c (by simpa [hui] using hc)
    have hdemux : ∀ n, (s'.demuxW n).Matched := fun n => by
      rcases cmdStep_demuxW hs n with h | h <;> rw [h]
      · exact hS.demux n
      · trivial
    refine ⟨cmdStep_video hs hS.video, hdemux, ?_, ?_⟩ <;>
      rcases cmdStep_ui hs with h | h | ⟨pos, f, pc, t, pc', rfl, hseek, rfl⟩
    · rw [h]
      exact fun c hc => (htail c (List.mem_of_mem_head? hc)).matched
    · rw [h]
      rintro c ⟨⟩
      trivial
    · rintro c ⟨⟩
      exact seekStep_matched hS hui ha hseek
    · rw [h]
      exact fun c hc => htail c (List.mem_of_mem_tail hc)
    · rw [h]
      intro c hc
      obtain rfl : c = .ret .open := by simpa using hc
      trivial
    · exact htail
  | request c =>
    simp only [Player.step] at hs
    split at hs <;> cases hs
    exact ⟨hS.video, hS.demux, fun b hb => (c.program_ready b (List.mem_of_mem_head? hb)).matched,
      fun b hb => c.program_ready b (List.mem_of_mem_tail hb)⟩

end Player

open Player

/-- In every run in which `aDecode` knows its kind when a video packet is offered to it, every packet is
stored in at most one queue, dropped at most once, and not sent after that. -/
theorem packet_owned (L : FFmpeg K) {s : Player K} (h : (player L).Reach AudioKnown s) : Owned s.log := by
  have hI : s.Sorted ∧ ∃ p, s.Own p := by
    refine h.inv (I := fun s => s.Sorted ∧ ∃ p, s.Own p) ?_ fun a s t ⟨hS, p, hp⟩ ha hs =>
      ⟨hS.step ha hs, hp.step hS ha hs⟩
    rintro _ ⟨total, rfl⟩
    refine ⟨⟨rfl, fun _ => trivial, by rintro _ ⟨⟩, by rintro _ ⟨⟩⟩, fun _ => .fresh, rfl, ?_, fun _ _ => rfl, ?_,
      fun _ => List.nodup_nil⟩
    · rintro _ _ _ ⟨⟩
    · intro w x hx
      cases w <;> cases hx
  obtain ⟨-, p, hp⟩ := hI
  exact .of_ledger hp.ledger hp.raises

/-! ### A file whose audio decoder does not open -/

set_option maxRecDepth 4000 in
/-- A video and an audio packet on their way through the player. -/
theorem packet_owned_av : ∃ s : Player Unit, s.log.filterMap Event.dropped = [1, 0] ∧ Owned s.log := by
  have hr : ((player silent).execIf AudioKnown
      (openStart [⟨0, 40, 40, [1]⟩, ⟨1, 40, 40, [1]⟩] .opened ++ List.replicate 16 (.demux 0) ++
        List.replicate 7 (.dec .video 0) ++ List.replicate 7 (.dec .audio 0))
      { demux := { total := 0 } }).map (fun s => s.log.filterMap Event.dropped) = some [1, 0] := rfl
  obtain ⟨s, hs, hl⟩ := Option.map_eq_some_iff.mp hr
  exact ⟨s, hl, packet_owned silent ⟨_, ⟨0, rfl⟩, .of_execIf hs⟩⟩

set_option maxRecDepth 4000 in
/-- `aDecode` has not been opened, so it stores the video packet as well, and both decoders drop it. -/
theorem packet_dropped_twice : ¬ ∀ s : Player Unit, (player silent).Reach Sys.any s → Owned s.log := by
  intro h
  have hr : ((player silent).exec (openStart [⟨0, 40, 40, [1]⟩] .notFound ++ List.replicate 10 (.demux 0) ++
      List.replicate 7 (.dec .video 0) ++ List.replicate 5 (.dec .audio 0))
      { demux := { total := 0 } }).map (fun s => s.log.filterMap Event.dropped) = some [0, 0] := rfl
  obtain ⟨s, hs, hl⟩ := Option.map_eq_some_iff.mp hr
  have hn := (h s ⟨_, ⟨0, rfl⟩, .of_exec_any hs⟩).dropped
  rw [hl] at hn
  exact absurd hn (by decide)

end XPlayer
