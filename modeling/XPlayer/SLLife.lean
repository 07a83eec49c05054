import XPlayer.Lib.Lifecycle
import XPlayer.SLObjects

/-!
# The life cycle of the OpenSL ES objects

Runs of `StartPlay` and `Close` on the static variables of `SLAudioPlay.cpp`, for all outcomes of the library calls.
-/

namespace XPlayer
open Lifecycle
variable {ι : Type}

def SLCall.act : SLObject ι × SLCall → Ev (SLObject ι)
  | (x, .create) => .create x
  | (x, .destroy) => .destroy x
  | (x, _) => .use x

/-- The player is created from the mixer and the mixer from the engine. -/
def SLKind.rank : SLKind → ℕ
  | .engine => 0
  | .outputMix => 1
  | .audioPlayer => 2

/-- An object is created only while none of its kind is live, and destroyed before what it was created from. -/
def SLCall.Apart (a : Ev (SLObject ι)) (y : SLObject ι) : Prop :=
  match a with
  | .create x => y.kind ≠ x.kind
  | .destroy x => y = x ∨ y.kind.rank < x.kind.rank
  | _ => True

inductive SLOp (ι : Type)
  | startPlay (i : ι) (o : SLOutcomes)
  | close

namespace SLStatics

def step (s : SLStatics ι) : SLOp ι → SLStatics ι
  | .startPlay i o => (s.startPlay i o).2
  | .close => s.close

def run (ops : List (SLOp ι)) : SLStatics ι := ops.foldl step {}

theorem run_append (ops more : List (SLOp ι)) : run (ops ++ more) = more.foldl step (run ops) :=
  List.foldl_append ..

theorem createSL_suffix (i : ι) (o : SLOutcomes) (s : SLStatics ι) : s.log <:+ (s.createSL i o).2.log := by
  unfold createSL
  split
  · exact List.suffix_rfl
  · simp only [create]
    split
    · exact List.suffix_cons ..
    · split <;> exact List.suffix_cons ..

theorem createPlayer_suffix (i : ι) (o : SLOutcomes) (s : SLStatics ι) : s.log <:+ (s.createPlayer i o).2.log := by
  unfold createPlayer
  split
  · exact List.suffix_rfl
  · simp only [create]
    split
    · exact List.suffix_cons ..
    · split
      · exact List.suffix_cons ..
      · split
        · exact List.suffix_append [_, _] _
        · split
          · exact List.suffix_append [_, _] _
          · exact List.suffix_append [_, _, _, _, _] _

theorem startPlay_suffix (i : ι) (o : SLOutcomes) (s : SLStatics ι) : s.close.log <:+ (s.startPlay i o).2.log := by
  have h := createSL_suffix i o s.close
  unfold startPlay
  split
  · rename_i t ht
    rwa [ht] at h
  · rename_i t ht
    rw [ht] at h
    exact h.trans (createPlayer_suffix i o t)

theorem close_suffix (s : SLStatics ι) : s.log <:+ s.close.log := List.suffix_append ..

/-- Every operation begins with `Close`. -/
theorem step_suffix (s : SLStatics ι) (op : SLOp ι) : s.close.log <:+ (s.step op).log := by
  cases op with
  | startPlay i o => exact startPlay_suffix i o s
  | close => exact List.suffix_rfl

/-- What `Close` destroys, newest first. -/
def objects (s : SLStatics ι) : List (SLObject ι) := s.player.toList ++ (s.mix.toList ++ s.engineSL.toList)

variable [DecidableEq ι] {i : ι} {o : SLOutcomes} {s : SLStatics ι}

/-- The live objects are those behind the variables, and the interfaces are of the player. -/
structure Alive (s : SLStatics ι) : Prop where
  engineSL : ∀ x ∈ s.engineSL, x.kind = .engine
  mix : ∀ x ∈ s.mix, x.kind = .outputMix
  player : ∀ x ∈ s.player, x.kind = .audioPlayer
  interfaces : ∀ x, x ∈ s.iplayer ∨ x ∈ s.pcmQue → x ∈ s.player
  sound : Sound SLCall.act SLCall.Apart (·.id) s.next s.log s.objects

theorem alive_init : Alive ({} : SLStatics ι) :=
  ⟨nofun, nofun, nofun, fun _ h => h.elim nofun nofun, .nil⟩

/-- `Close` uses the player and destroys it, then the mixer, then the engine. -/
theorem Alive.close (h : s.Alive) : s.close.Alive := by
  refine ⟨nofun, nofun, nofun, fun _ h => h.elim nofun nofun, ?_⟩
  have hmem : ∀ x ∈ s.player, x ∈ s.objects := fun x hx => by simp [objects, Option.mem_def.mp hx]
  have hp := (h.sound.use_toList (o := s.iplayer) (f := (·, .setPlayState false)) (fun _ => rfl) fun x hx =>
    ⟨hmem x (h.interfaces x (.inl hx)), fun _ _ => trivial⟩).use_toList (o := s.pcmQue) (f := (·, .clear))
      (fun _ => rfl) fun x hx => ⟨hmem x (h.interfaces x (.inr hx)), fun _ _ => trivial⟩
  have hm := hp.destroy_toList (f := (·, .destroy)) (fun _ => rfl) fun x hx y hy => by
    rcases List.mem_cons.mp hy with rfl | hy
    · exact .inl rfl
    · refine .inr ?_
      rw [h.player x hx]
      rcases List.mem_append.mp hy with hy | hy
      · rw [h.mix y (Option.mem_toList.mp hy)]; decide
      · rw [h.engineSL y (Option.mem_toList.mp hy)]; decide
  have he := hm.destroy_toList (f := (·, .destroy)) (fun _ => rfl) fun x hx y hy => by
    rcases List.mem_cons.mp hy with rfl | hy
    · exact .inl rfl
    · refine .inr ?_
      rw [h.mix x hx, h.engineSL y (Option.mem_toList.mp hy)]; decide
  have hn := (he.perm (.of_eq (List.append_nil _).symm)).destroy_toList (f := (·, .destroy)) (fun _ => rfl)
    fun x _ y hy => .inl (List.mem_singleton.mp hy)
  simpa [SLStatics.close, closeCalls, objects] using hn

theorem Alive.createSL (h : s.Alive) (hs : s.objects = []) (i : ι) (o : SLOutcomes) : (s.createSL i o).2.Alive ∧
    (s.createSL i o).2.mix = none ∧ (s.createSL i o).2.player = none := by
  simp only [objects, List.append_eq_nil_iff, Option.toList_eq_nil_iff] at hs
  obtain ⟨hp, hm, he⟩ := hs
  have hc := h.sound
  unfold SLStatics.createSL
  split
  · exact ⟨⟨h.engineSL, h.mix, h.player, h.interfaces, hc⟩, hm, hp⟩
  · simp only [create]
    simp only [objects, hp, hm, he] at hc
    have hc := hc.create (x := SLObject.mk i .engine s.next) (e := (.mk i .engine s.next, .create)) rfl rfl
      fun y hy => by cases hy
    have hset : Alive { s with engineSL := some ⟨i, .engine, s.next⟩, eng := none, next := s.next + 1,
                               log := (⟨i, .engine, s.next⟩, .create) :: s.log } :=
      ⟨by rintro _ ⟨⟩; rfl, h.mix, h.player, h.interfaces, by simpa [objects, hp, hm] using hc⟩
    split
    · exact ⟨hset, hm, hp⟩
    · split
      · exact ⟨hset, hm, hp⟩
      · exact ⟨⟨hset.engineSL, hset.mix, hset.player, hset.interfaces, hset.sound⟩, hm, hp⟩

/-- `StartPlay` from the creation of the mixer on, while there is neither a mixer nor a player. -/
theorem Alive.createPlayer (h : s.Alive) (hm : s.mix = none) (hp : s.player = none) (i : ι) (o : SLOutcomes) :
    (s.createPlayer i o).2.Alive := by
  have hc := h.sound
  have hnull : s.iplayer = none ∧ s.pcmQue = none := by
    constructor <;> rw [Option.eq_none_iff_forall_not_mem] <;> intro x hx
    · have := h.interfaces x (.inl hx)
      rw [hp] at this
      cases this
    · have := h.interfaces x (.inr hx)
      rw [hp] at this
      cases this
  obtain ⟨hi, hq⟩ := hnull
  unfold SLStatics.createPlayer
  split
  · exact h
  · simp only [create]
    simp only [objects, hp, hm, Option.toList_none, List.nil_append] at hc
    have hc := hc.create (x := SLObject.mk i .outputMix s.next) (e := (.mk i .outputMix s.next, .create)) rfl rfl
      fun y hy => by simp [SLCall.Apart, h.engineSL y (Option.mem_toList.mp hy)]
    have hmix : Alive { s with mix := some ⟨i, .outputMix, s.next⟩, next := s.next + 1,
                               log := (⟨i, .outputMix, s.next⟩, .create) :: s.log } :=
      ⟨h.engineSL, by rintro _ ⟨⟩; rfl, h.player, h.interfaces, by simpa [objects, hp] using hc⟩
    split
    · exact hmix
    · split
      · exact hmix
      · have hc := hc.create (x := SLObject.mk i .audioPlayer (s.next + 1))
          (e := (.mk i .audioPlayer (s.next + 1), .create)) rfl rfl fun y hy => by
            rcases List.mem_cons.mp hy with rfl | hy
            · simp [SLCall.Apart]
            · simp [SLCall.Apart, h.engineSL y (Option.mem_toList.mp hy)]
        have hplayer : ∀ x ∈ some (SLObject.mk i .audioPlayer (s.next + 1)), x.kind = .audioPlayer := by
          rintro _ ⟨⟩
          rfl
        split
        · exact ⟨h.engineSL, hmix.mix, hplayer, by rw [hi, hq]; simp,
            by simpa [objects] using hc⟩
        · split
          · exact ⟨h.engineSL, hmix.mix, hplayer, by rw [hq]; simp,
              by simpa [objects] using hc⟩
          · refine ⟨h.engineSL, hmix.mix, hplayer, by simp, ?_⟩
            have hx := List.mem_cons_self (a := SLObject.mk i .audioPlayer (s.next + 1))
              (l := .mk i .outputMix s.next :: s.engineSL.toList)
            have hu := ((hc.use (e := (_, .registerCallback)) rfl hx fun _ _ => trivial).use
              (e := (_, .setPlayState true)) rfl hx fun _ _ => trivial).use (e := (_, .enqueue)) rfl hx fun _ _ => trivial
            simpa [objects] using hu

theorem Alive.startPlay (h : s.Alive) (i : ι) (o : SLOutcomes) : (s.startPlay i o).2.Alive := by
  obtain ⟨hs, hm, hp⟩ := h.close.createSL rfl i o
  unfold SLStatics.startPlay
  split
  · rename_i t ht
    rwa [ht] at hs
  · rename_i t ht
    rw [ht] at hs hm hp
    exact hs.createPlayer hm hp i o

theorem Alive.step (h : s.Alive) (op : SLOp ι) : (s.step op).Alive := by
  cases op with
  | startPlay i o => exact h.startPlay i o
  | close => exact h.close

theorem alive_run (ops : List (SLOp ι)) : (run ops).Alive := by
  induction ops using List.reverseRecOn with
  | nil => exact alive_init
  | append_singleton ops op ih =>
    rw [run_append]
    exact ih.step op

/-- At every moment of every run at most one engine, one mixer and one player are live, and a player is destroyed before
the mixer and a mixer before the engine; what is created is destroyed by the next operation and never again; the
interfaces are of a player that is live. -/
theorem objects_life_cycle (ops : List (SLOp ι)) :
    (∀ old, old <:+ (run ops).log → ∀ k, ((live SLCall.act old).filter (·.kind = k)).length ≤ 1) ∧
    (∀ x old, (x, .destroy) :: old <:+ (run ops).log →
      x ∈ live SLCall.act old ∧ ∀ y ∈ live SLCall.act old, y = x ∨ y.kind.rank < x.kind.rank) ∧
    (∀ op more x, (x, .create) ∈ (run ops).log →
      (destroyed SLCall.act (run (ops ++ op :: more)).log).filter (· = x) = [x]) ∧
    ∀ x, x ∈ (run ops).iplayer ∨ x ∈ (run ops).pcmQue → x.kind = .audioPlayer ∧ x ∈ live SLCall.act (run ops).log := by
  have h := alive_run ops
  refine ⟨fun old ho k => ?_, fun x old ho => ⟨h.sound.held _ _ ho, h.sound.ok _ _ ho⟩, fun op more x hx => ?_,
    fun x hx => ?_⟩
  · exact (h.sound.suffix ho).kind_le_one (fun y => y.kind) (fun _ _ h => h) k
  · have hm : x ∈ created SLCall.act (run ops).log := List.mem_filterMap.mpr ⟨_, hx, rfl⟩
    have hd := h.close.sound.mem_destroyed (((close_suffix _).sublist.filterMap _).subset hm) nofun
    have hl : (run ops).close.log <:+ (run (ops ++ op :: more)).log := by
      rw [run_append]
      exact (step_suffix _ op).trans (foldl_suffix (fun s op => (close_suffix s).trans (step_suffix s op)) _ more)
    refine (alive_run _).sound.filter_destroyed ((hl.sublist.filterMap _).subset hd) (by simp) fun y hy => ?_
    rw [of_decide_eq_true hy]
  · have hp := h.interfaces x hx
    exact ⟨h.player x hp, h.sound.mem_live.mpr (by simp [objects, Option.mem_def.mp hp])⟩

end SLStatics

end XPlayer
