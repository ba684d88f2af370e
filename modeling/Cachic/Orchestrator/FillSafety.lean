import Cachic.Orchestrator.Filler

/-!
# The invariant of the fill protocol

`FillState.Inv` is what holds of the state between any two steps, and `FillPc.Ok` what a
requester in each position knows: a filler, how far it has published; a waiter, that what it
has seen does not settle the matter.  Both follow from what one step does
(`FillThread.ok_of_move`), so they hold in every reachable team (`FillTeam.safe_of_run`).
-/

namespace Cachic

open Range ActionLang ThreadTeam

namespace FillState

variable {w : FillState} {tid : ℕ} {fill : FillId}

/-- What holds of the state between any two steps. -/
structure Inv (w : FillState) : Prop where
  registered : ∀ {object fill}, w.shared.fillOf object = some fill →
    fill.object = object ∧ fill.serial < w.shared.fresh
  unused : ∀ {fill}, w.shared.fresh ≤ fill.serial → w.shared.fills fill = .ready 0
  /-- what is published is stored -/
  covered : ∀ {fill index}, (w.shared.fills fill).covers index = true →
    w.inserted fill index = true
  used : ∀ {fill index}, w.inserted fill index = true → fill.serial < w.shared.fresh
  filed : ∀ {fill index}, w.inserted fill index = true →
    w.written { object := fill.object, generation := w.generation fill, index := index } = true
  stored : ∀ {key}, (w.shared.store key).isSome = true → w.written key = true
  /-- a fill leaves the registry before its end is published, and is let go of with it -/
  final : ∀ {fill}, (w.shared.fills fill).isTerminal = true →
    ¬ w.Registered fill ∧ w.held fill = false

theorem Inv.boot (index : ObjectIndex) (store : SliceKey → Option SliceValue) (fresh : ℕ) :
    (FillState.boot index store fresh).Inv where
  registered := fun h => by cases h
  unused := fun _ => rfl
  covered := fun h => by simp [FillState.boot, Shared.boot, Progress.covers] at h
  used := fun h => by cases h
  filed := fun h => by cases h
  stored := fun h => h
  final := fun h => by cases h

theorem Inv.next {shared : Shared} (h : w.Inv) (hfillOf : shared.fillOf = w.shared.fillOf)
    (hfills : shared.fills = w.shared.fills) (hfresh : w.shared.fresh ≤ shared.fresh) :
    (w.next shared).Inv where
  registered := fun {object g} hg => by
    have hold : w.shared.fillOf object = some g := hfillOf ▸ hg
    exact ⟨(h.registered hold).1, lt_of_lt_of_le (h.registered hold).2 hfresh⟩
  unused := fun {g} hg => (congrFun hfills g).trans (h.unused (hfresh.trans hg))
  covered := fun {g i} hg => h.covered (hfills ▸ hg)
  used := fun hg => lt_of_lt_of_le (h.used hg) hfresh
  filed := fun hg => by simp [FillState.next, h.filed hg]
  stored := fun {key} hkey => by
    have : (shared.store key).isSome = true := hkey
    simp [FillState.next, this]
  final := fun {g} hg => by
    obtain ⟨hreg, hheld⟩ := h.final (hfills ▸ hg)
    refine ⟨fun hr => hreg ?_, hheld⟩
    unfold Registered at hr ⊢
    exact hfillOf ▸ hr

theorem Inv.claim {plan : Plan} (h : w.Inv) (hobject : fill.object = plan.object)
    (hserial : fill.serial = w.shared.fresh) : (w.claim tid plan fill).Inv := by
  have hfresh : (w.claim tid plan fill).shared.fresh = w.shared.fresh + 1 := rfl
  refine
    { registered := fun {object g} hg => ?_
      unused := fun {g} hg => h.unused (by rw [hfresh] at hg; omega)
      covered := fun hg => h.covered hg
      used := fun hg => by
        have := h.used hg
        omega
      filed := fun {g i} hg => ?_
      stored := fun hkey => h.stored hkey
      final := fun {g} hg => ?_ }
  · by_cases hsame : object = plan.object
    · obtain rfl : fill = g := by simpa [FillState.claim, hsame] using hg
      exact ⟨hobject.trans hsame.symm, by omega⟩
    · have hold : w.shared.fillOf object = some g := by simpa [FillState.claim, hsame] using hg
      have := h.registered hold
      exact ⟨this.1, by omega⟩
  · have hne := ne_of_serial (h.used hg) hserial
    have hgeneration : (w.claim tid plan fill).generation g = w.generation g :=
      Function.update_of_ne hne _ _
    rw [hgeneration]
    exact h.filed hg
  · have hterminal : (w.shared.fills g).isTerminal = true := hg
    by_cases hlt : g.serial < w.shared.fresh
    · -- a registered fill in use was registered before
      obtain ⟨hreg, hheld⟩ := h.final hterminal
      have hne := ne_of_serial hlt hserial
      refine ⟨fun hr => hreg ?_, (Function.update_of_ne hne _ _).trans hheld⟩
      by_cases hsame : g.object = plan.object
      · simp [Registered, FillState.claim, hsame, hne.symm] at hr
      · simpa [Registered, FillState.claim, hsame] using hr
    · rw [h.unused (by omega)] at hterminal
      cases hterminal

theorem Inv.insert {key : SliceKey} {value : SliceValue} (h : w.Inv)
    (hused : fill.serial < w.shared.fresh)
    (hkey : key = { object := fill.object, generation := w.generation fill, index := key.index }) :
    (w.insert fill key value).Inv := by
  have hinserted : ∀ {g i}, (w.insert fill key value).inserted g i = true →
      w.inserted g i = true ∨ g = fill ∧ i = key.index := by
    intro g i hg
    by_cases hfill : g = fill
    · subst hfill
      by_cases hindex : i = key.index
      · exact .inr ⟨rfl, hindex⟩
      · left
        simpa [FillState.insert, hindex] using hg
    · left
      simpa [FillState.insert, hfill] using hg
  have hwritten : (w.insert fill key value).written key = true := by
    simp [FillState.insert, FillState.next, Shared.land, Shared.setSlice]
  refine
    { registered := fun hg => h.registered hg
      unused := fun hg => h.unused hg
      covered := fun {g i} hg => ?_
      used := fun {g i} hg => ?_
      filed := fun {g i} hg => ?_
      stored := fun {k} hk => ?_
      final := fun hg => h.final hg }
  · have hold : w.inserted g i = true := h.covered hg
    by_cases hfill : g = fill
    · subst hfill
      by_cases hindex : i = key.index
      · simp [FillState.insert, hindex]
      · simpa [FillState.insert, hindex] using hold
    · simpa [FillState.insert, hfill] using hold
  · rcases hinserted hg with hold | ⟨rfl, -⟩
    · exact h.used hold
    · exact hused
  · rcases hinserted hg with hold | ⟨rfl, rfl⟩
    · have := h.filed hold
      simp [FillState.insert, FillState.next, this]
    · show (w.insert g key value).written
        { object := g.object, generation := w.generation g, index := key.index } = true
      rw [← hkey]
      exact hwritten
  · have : ((w.shared.land key value).store k).isSome = true := hk
    simp [FillState.insert, FillState.next, this]

theorem Inv.publish {progress : Progress} (h : w.Inv) (hused : fill.serial < w.shared.fresh)
    (hcovers : ∀ index, progress.covers index = true → w.inserted fill index = true)
    (hfinal : progress.isTerminal = true → ¬ w.Registered fill ∧ w.held fill = false) :
    (w.publish fill progress).Inv := by
  have hother : ∀ {g}, g ≠ fill → (w.publish fill progress).shared.fills g = w.shared.fills g :=
    fun hg => Function.update_of_ne hg _ _
  have hself : (w.publish fill progress).shared.fills fill = progress :=
    Function.update_self _ _ _
  refine
    { registered := fun hg => h.registered hg
      unused := fun {g} hg => ?_
      covered := fun {g i} hg => ?_
      used := fun hg => h.used hg
      filed := fun hg => h.filed hg
      stored := fun hk => h.stored hk
      final := fun {g} hg => ?_ }
  · have hg' : w.shared.fresh ≤ g.serial := hg
    have hne : g ≠ fill := by
      rintro rfl
      omega
    rw [hother hne]
    exact h.unused hg
  · by_cases hfill : g = fill
    · subst hfill
      rw [hself] at hg
      exact hcovers i hg
    · rw [hother hfill] at hg
      exact h.covered hg
  · by_cases hfill : g = fill
    · subst hfill
      rw [hself] at hg
      exact hfinal hg
    · rw [hother hfill] at hg
      exact h.final hg

theorem Inv.release {object : ObjectId} (h : w.Inv) : (w.release object).Inv where
  registered := fun {o g} hg => by
    by_cases hsame : o = object
    · simp [FillState.release, hsame] at hg
    · exact h.registered (by simpa [FillState.release, hsame] using hg)
  unused := fun hg => h.unused hg
  covered := fun hg => h.covered hg
  used := fun hg => h.used hg
  filed := fun hg => h.filed hg
  stored := fun hk => h.stored hk
  final := fun hg =>
    ⟨fun hr => (h.final hg).1 (registered_release.mp hr).1, (h.final hg).2⟩

theorem Inv.letGo (h : w.Inv) : (w.letGo fill).Inv where
  registered := fun hg => h.registered hg
  unused := fun hg => h.unused hg
  covered := fun hg => h.covered hg
  used := fun hg => h.used hg
  filed := fun hg => h.filed hg
  stored := fun hk => h.stored hk
  final := fun {g} hg => by
    obtain ⟨hreg, hheld⟩ := h.final hg
    refine ⟨hreg, ?_⟩
    by_cases hfill : g = fill
    · rw [hfill]
      exact Function.update_self _ _ _
    · exact (Function.update_of_ne hfill _ _).trans hheld

/-- A fill of the caller's object. -/
structure Follows (w : FillState) (call : FillCall) (fill : FillId) : Prop where
  object : fill.object = call.plan.object
  used : fill.serial < w.shared.fresh

/-- A fill the caller has claimed and still holds, for its own plan. -/
structure Owns (w : FillState) (tid : ℕ) (call : FillCall) (fill : FillId) : Prop
    extends Follows w call fill where
  owner : w.owner fill = tid
  held : w.held fill = true
  generation : w.generation fill = call.plan.info.generation

variable {w' : FillState} {call : FillCall}

theorem Follows.shift (h : w.Follows call fill) (hs : Shift tid w w') : w'.Follows call fill :=
  ⟨h.object, lt_of_lt_of_le h.used hs.fresh⟩

theorem Follows.keep (h : w.Follows call fill) (hfresh : w'.shared.fresh = w.shared.fresh) :
    w'.Follows call fill :=
  ⟨h.object, hfresh ▸ h.used⟩

/-- Steps that do not touch what a fill's owner is sure of. -/
theorem Owns.keep (h : w.Owns tid call fill) (hfresh : w'.shared.fresh = w.shared.fresh)
    (howner : w'.owner = w.owner) (hheld : w'.held = w.held)
    (hgeneration : w'.generation = w.generation) : w'.Owns tid call fill :=
  ⟨h.toFollows.keep hfresh, howner ▸ h.owner, hheld ▸ h.held, hgeneration ▸ h.generation⟩

theorem Owns.shift {mover : ℕ} (h : w.Owns tid call fill) (hs : Shift mover w w')
    (hne : tid ≠ mover) : w'.Owns tid call fill := by
  have hagree := hs.others fill h.used (.inl (by rw [h.owner]; exact hne))
  exact ⟨h.toFollows.shift hs, (hs.owner fill h.used).trans h.owner, hagree.held.trans h.held,
    (hs.generation fill h.used).trans h.generation⟩

end FillState

open FillState

/-- What a requester in each position knows. -/
def FillPc.Ok (w : FillState) (tid : ℕ) (call : FillCall) : FillPc → Prop
  | .starting => True
  | .claiming => True
  | .polling fill => w.Follows call fill
  -- what it has seen did not settle the matter, and what it has not seen will wake it
  | .waiting fill seen => w.Follows call fill ∧ seen ≤ w.version fill ∧
      (seen = w.version fill → (w.shared.fills fill).verdict call.index = none)
  | .opening fill rest => w.Owns tid call fill ∧ w.Registered fill ∧
      w.shared.fills fill = .ready 0 ∧ rest.All fun a => a.network = true
  | .reading fill stream => w.Owns tid call fill ∧ w.Registered fill ∧
      w.shared.fills fill = .ready stream.index ∧ stream.index < 2 ^ 32
  | .inserting fill stream => w.Owns tid call fill ∧ w.Registered fill ∧
      w.shared.fills fill = .ready stream.index ∧ stream.index < 2 ^ 32
  -- one slice more is stored than published
  | .publishing fill stream => w.Owns tid call fill ∧ w.Registered fill ∧
      ∃ count < 2 ^ 32, w.shared.fills fill = .ready count ∧ w.inserted fill count = true ∧
        stream.index = wrapAdd 32 count 1
  | .releasing fill result => w.Owns tid call fill ∧ w.Registered fill ∧
      ∃ count, w.shared.fills fill = .ready count ∧ ∀ n, result = .ok n → n = count
  | .announcing fill result => w.Owns tid call fill ∧ ¬ w.Registered fill ∧
      ∃ count, w.shared.fills fill = .ready count ∧ ∀ n, result = .ok n → n = count
  | .returned none result => result = .ok () → w.written call.key = true
  | .returned (some fill) result => w.Follows call fill ∧
      (result = .ok () → w.inserted fill call.index = true) ∧
      (result ≠ .ok () → w.held fill = false)
  | .abandoned fill => w.Follows call fill ∧ w.owner fill = tid

variable {w w' : FillState} {tid index : ℕ} {call : FillCall} {progress : Progress} {fill : FillId}
  {cfg : Config} {pc : FillPc}

/-- A step of another thread does not disturb what a requester knows. -/
theorem FillPc.Ok.shift {mover : ℕ} (h : pc.Ok w tid call) (hs : Shift mover w w')
    (hne : tid ≠ mover) : pc.Ok w' tid call := by
  -- the fill it has claimed is not the mover's
  have hsame : ∀ {fill}, w.Owns tid call fill → Agrees fill w w' := fun hown =>
    hs.others _ hown.used (.inl (by rw [hown.owner]; exact hne))
  cases pc with
  | starting => trivial
  | claiming => trivial
  | polling fill => exact Follows.shift h hs
  | waiting fill seen =>
      obtain ⟨hfollows, hseen, hverdict⟩ := h
      refine ⟨hfollows.shift hs, ?_, ?_⟩
      · rcases hs.moved fill with ⟨-, hversion⟩ | hlater <;> omega
      · intro hnow
        rcases hs.moved fill with ⟨hprogress, hversion⟩ | hlater
        · rw [hprogress]
          exact hverdict (hnow.trans hversion)
        · omega
  | opening fill rest =>
      obtain ⟨hown, hreg, hfills, hnet⟩ := h
      have ha := hsame hown
      exact ⟨hown.shift hs hne, ha.registered.mpr hreg, ha.progress.trans hfills, hnet⟩
  | reading fill stream =>
      obtain ⟨hown, hreg, hfills, hlt⟩ := h
      have ha := hsame hown
      exact ⟨hown.shift hs hne, ha.registered.mpr hreg, ha.progress.trans hfills, hlt⟩
  | inserting fill stream =>
      obtain ⟨hown, hreg, hfills, hlt⟩ := h
      have ha := hsame hown
      exact ⟨hown.shift hs hne, ha.registered.mpr hreg, ha.progress.trans hfills, hlt⟩
  | publishing fill stream =>
      obtain ⟨hown, hreg, count, hlt, hfills, hinserted, hindex⟩ := h
      have ha := hsame hown
      exact ⟨hown.shift hs hne, ha.registered.mpr hreg, count, hlt, ha.progress.trans hfills,
        hs.inserted _ _ hinserted, hindex⟩
  | releasing fill result =>
      obtain ⟨hown, hreg, count, hfills, hcount⟩ := h
      have ha := hsame hown
      exact ⟨hown.shift hs hne, ha.registered.mpr hreg, count, ha.progress.trans hfills, hcount⟩
  | announcing fill result =>
      obtain ⟨hown, hreg, count, hfills, hcount⟩ := h
      have ha := hsame hown
      exact ⟨hown.shift hs hne, fun hr => hreg (ha.registered.mp hr), count,
        ha.progress.trans hfills, hcount⟩
  | returned via result =>
      cases via with
      | none => exact fun hok => hs.written _ (h hok)
      | some fill =>
          obtain ⟨hfollows, hok, herror⟩ := h
          refine ⟨hfollows.shift hs, fun h => hs.inserted _ _ (hok h), fun h => ?_⟩
          exact (hs.others fill hfollows.used (.inr (herror h))).held.trans (herror h)
  | abandoned fill =>
      exact ⟨h.1.shift hs, (hs.owner fill h.1.used).trans h.2⟩

/-! ## The end of a wait -/

/-- A receiver of a fill that has ended returns at its next poll. -/
theorem poll_returns (hend : progress.isTerminal = true) (index : ℕ) :
    ∃ answer, progress.verdict index = some answer := by
  unfold Progress.verdict
  split
  · exact ⟨_, rfl⟩
  · cases progress with
    | ready count => cases hend
    | complete count => exact ⟨_, rfl⟩
    | failed reason => exact ⟨_, rfl⟩

/-- A receiver that waits in `changed` is woken by the end of the fill. -/
theorem waiter_is_woken (tid : ℕ) {seen : ℕ} (h : (FillPc.waiting fill seen).Ok w tid call)
    (hend : (w.shared.fills fill).isTerminal = true) : seen < w.version fill := by
  obtain ⟨-, hseen, hverdict⟩ := h
  refine lt_of_le_of_ne hseen fun heq => ?_
  obtain ⟨answer, hanswer⟩ := poll_returns hend call.index
  rw [hverdict heq] at hanswer
  cases hanswer

/-! ## One step, and every run -/

theorem covers_iff {count : ℕ} (h : progress = .ready count ∨ progress = .complete count)
    (index : ℕ) :
    progress.covers index = true ↔ index < count := by
  rcases h with rfl | rfl <;> simp [Progress.covers]

/-- A verdict of `Ok` is a slice that is covered. -/
theorem covers_of_verdict (h : progress.verdict index = some (.ok ())) :
    progress.covers index = true := by
  unfold Progress.verdict at h
  split at h
  · assumption
  · cases progress <;> cases h

/-- A verdict of an error is the end of the fill. -/
theorem terminal_of_verdict {reason : String} (h : progress.verdict index = some (.error reason)) :
    progress.isTerminal = true := by
  unfold Progress.verdict at h
  split at h
  · cases h
  · cases progress with
    | ready count => cases h
    | complete count => rfl
    | failed text => rfl

/-- Reading on changes nothing that is shared. -/
theorem Streaming.ok_read {stream : Streaming} (cfg : Config)
    (h : (FillPc.reading fill stream).Ok w tid call) :
    (stream.read cfg fill call.url).Ok w tid call := by
  obtain ⟨hown, hreg, hfills, hlt⟩ := h
  unfold Streaming.read
  split
  · dsimp only
    split
    · exact ⟨hown, hreg, hfills, hlt⟩
    · exact ⟨hown, hreg, hfills, hlt⟩
  · split
    · exact ⟨hown, hreg, _, hfills, fun n hn => by cases hn⟩
    · split
      · exact ⟨hown, hreg, _, hfills, fun n hn => by cases hn; rfl⟩
      · exact ⟨hown, hreg, hfills, hlt⟩

theorem Streaming.ok_resume {stream : Streaming} (cfg : Config)
    (h : (FillPc.reading fill stream).Ok w tid call) :
    (stream.resume cfg fill).Ok w tid call := by
  unfold Streaming.resume
  split
  · exact h
  · exact h

/-- A published terminal state covers what was covered before it. -/
theorem covers_terminalOf {result : Except OrchestratorError ℕ} {count : ℕ}
    (hcount : ∀ n, result = .ok n → n = count) (h : (terminalOf cfg result).covers index = true) :
    index < count := by
  cases result with
  | ok n =>
      obtain rfl := hcount n rfl
      simpa [terminalOf, Progress.covers] using h
  | error e => simp [terminalOf, Progress.covers] at h

/-- **What one step of a requester does**: it keeps the invariant, leaves the fills of the
others alone, and knows what its next position says. -/
theorem FillPc.Moves.ok {pc' : FillPc} (hmoves : pc.Moves cfg tid call w pc' w') (hinv : w.Inv)
    (h : pc.Ok w tid call) : w'.Inv ∧ pc'.Ok w' tid call ∧ Shift tid w w' := by
  cases hmoves with
  | @found choice hstored =>
      obtain ⟨hfillOf, hfills⟩ := @Part.same_settle .fills nofun w.shared call.key choice
      have hfresh := settle_fresh w.shared call.key choice
      refine ⟨hinv.next hfillOf hfills hfresh.ge, fun _ => ?_, .next hfillOf hfills hfresh.ge⟩
      simp [FillState.next, hstored]
  | @missing choice hmissing =>
      obtain ⟨hfillOf, hfills⟩ := @Part.same_settle .fills nofun w.shared call.key choice
      have hfresh := settle_fresh w.shared call.key choice
      exact ⟨hinv.next hfillOf hfills hfresh.ge, trivial, .next hfillOf hfills hfresh.ge⟩
  | subscribe hfill =>
      exact ⟨hinv, ⟨(hinv.registered hfill).1, (hinv.registered hfill).2⟩, .refl⟩
  | claim hnone =>
      refine ⟨hinv.claim rfl rfl, ⟨⟨⟨rfl, Nat.lt_succ_self _⟩, ?_, ?_, ?_⟩, ?_, ?_,
        fetchStream_network _ _ _⟩, .claim hnone rfl⟩
      · exact Function.update_self _ _ _
      · exact Function.update_self _ _ _
      · exact Function.update_self _ _ _
      · exact Function.update_self _ _ _
      · exact hinv.unused le_rfl
  | @told fill answer hanswer =>
      rcases answer with reason | ⟨⟩
      · exact ⟨hinv, ⟨h, fun hok => (by cases hok),
          fun _ => (hinv.final (terminal_of_verdict hanswer)).2⟩, .refl⟩
      · exact ⟨hinv, ⟨h, fun _ => hinv.covered (covers_of_verdict hanswer),
          fun herror => absurd rfl herror⟩, .refl⟩
  | wait hnone => exact ⟨hinv, ⟨h, le_rfl, fun _ => hnone⟩, .refl⟩
  | wake _ => exact ⟨hinv, h.1, .refl⟩
  | closed _ hclosed =>
      refine ⟨hinv, ⟨h.1, fun hok => (by cases hok), fun _ => ?_⟩, .refl⟩
      rw [FillState.isOpen, Bool.or_eq_false_iff] at hclosed
      exact hclosed.1
  | @network fill a rest choice r shared hexec =>
      obtain ⟨hown, hreg, hfills, hnet⟩ := h
      obtain rfl := exec_network hnet.1 hexec
      exact ⟨hinv.next rfl rfl le_rfl, ⟨hown.keep rfl rfl rfl rfl, hreg, hfills, hnet.2 r⟩,
        .next rfl rfl le_rfl⟩
  | refused =>
      obtain ⟨hown, hreg, hfills, -⟩ := h
      exact ⟨hinv, ⟨hown, hreg, 0, hfills, fun n hn => by cases hn⟩, .refl⟩
  | opened =>
      obtain ⟨hown, hreg, hfills, -⟩ := h
      exact ⟨hinv, ⟨hown, hreg, hfills, Nat.two_pow_pos 32⟩, .refl⟩
  | read => exact ⟨hinv, Streaming.ok_read cfg h, .refl⟩
  | @insert fill stream =>
      obtain ⟨hown, hreg, hfills, hlt⟩ := h
      refine ⟨hinv.insert hown.used ?_,
        ⟨hown.keep rfl rfl rfl rfl, hreg, stream.index, hlt, hfills, ?_, rfl⟩,
        .insert hown.owner hown.held⟩
      · simp [Plan.sliceKey, hown.generation, hown.object]
      · simp [FillState.insert, Plan.sliceKey]
  | publish =>
      obtain ⟨hown, hreg, count, hlt, hfills, hinserted, hindex⟩ := h
      refine ⟨hinv.publish hown.used ?_ (fun hfinal => by cases hfinal),
        Streaming.ok_resume cfg
          ⟨hown.keep rfl rfl rfl rfl, hreg, Function.update_self _ _ _, ?_⟩,
        .publish hown.owner hown.held⟩
      · -- the slices below the new count were published before, or are the one just stored
        intro index hcovers
        rw [covers_iff (.inl rfl), hindex] at hcovers
        have hle : wrapAdd 32 count 1 ≤ count + 1 := Nat.mod_le _ _
        rcases Nat.lt_or_ge index count with hbelow | habove
        · exact hinv.covered ((covers_iff (.inl hfills) index).mpr hbelow)
        · obtain rfl : index = count := by omega
          exact hinserted
      · rw [hindex]
        exact Nat.mod_lt _ (by decide)
  | @release fill result =>
      obtain ⟨hown, hreg, count, hfills, hcount⟩ := h
      have hfillOf : w.shared.fillOf call.plan.object = some fill := hown.object ▸ hreg
      refine ⟨hinv.release, ⟨hown.keep rfl rfl rfl rfl, ?_, count, hfills, hcount⟩,
        .release hown.owner hown.held hfillOf⟩
      rw [registered_release]
      exact fun hr => hr.2 hown.object
  | @announce fill result =>
      obtain ⟨hown, hreg, count, hfills, hcount⟩ := h
      have hcovers : ∀ index, (terminalOf cfg result).covers index = true →
          w.inserted fill index = true := fun index hindex =>
        hinv.covered ((covers_iff (.inl hfills) index).mpr (covers_terminalOf hcount hindex))
      have hfree : (w.letGo fill).held fill = false := Function.update_self _ _ _
      refine ⟨hinv.letGo.publish hown.used hcovers fun _ => ⟨hreg, hfree⟩,
        ⟨hown.toFollows.keep rfl, ?_, fun _ => hfree⟩, .announce hown.owner hown.held⟩
      intro hok
      rcases result with e | n
      · cases hok
      · refine hcovers call.index ?_
        simp only [fillerResult] at hok
        split at hok
        · next hlt => exact (covers_iff (.inr rfl) call.index).mpr hlt
        · cases hok

/-- A step that is not on fills leaves them alone. -/
theorem exec_not_onFills {a : Act} {choice : Choice} {s s' : Shared} {r : a.Res}
    (ha : a.onFills = false) (h : exec a choice s = some (r, s')) :
    s'.fillOf = s.fillOf ∧ s'.fills = s.fills ∧ s.fresh ≤ s'.fresh := by
  have hpart : Part.fills ∉ a.writes := by cases a <;> simp [Act.writes, Act.onFills] at ha ⊢
  obtain ⟨hfillOf, hfills⟩ := exec_frame h hpart
  exact ⟨hfillOf, hfills, exec_fresh h⟩

/-- What a thread of the machine knows. -/
def FillThread.Ok (w : FillState) (tid : ℕ) : FillThread → Prop
  | .requester call pc => pc.Ok w tid call
  | .other _ => True

/-- The fill a position is responsible for is the requester's own. -/
theorem FillPc.Ok.owns (h : pc.Ok w tid call) (hfill : pc.fills = some fill) :
    w.Owns tid call fill := by
  cases pc <;> cases hfill <;> exact h.1

/-- **What one step of any thread does.** -/
theorem FillThread.ok_of_move {t t' : FillThread} {choice : FillChoice} (hinv : w.Inv)
    (h : t.Ok w tid) (hmove : t.move cfg tid choice w = some (t', w')) :
    w'.Inv ∧ t'.Ok w' tid ∧ Shift tid w w' := by
  cases FillThread.moves_of_move hmove with
  | requester hpc => exact hpc.ok hinv h
  | abandon hfill =>
      have hown := FillPc.Ok.owns h hfill
      exact ⟨hinv.letGo, ⟨hown.toFollows.keep rfl, hown.owner⟩, .letGo hown.owner hown.held⟩
  | other hother hexec =>
      obtain ⟨hfillOf, hfills, hfresh⟩ := exec_not_onFills hother hexec
      exact ⟨hinv.next hfillOf hfills hfresh, trivial, .next hfillOf hfills hfresh⟩

theorem fillMachine_modular (cfg : Config) :
    (fillMachine cfg).Modular FillState.Inv fun w tid t => t.Ok w tid where
  start := by
    intro w tid t _ hstart
    rcases t with ⟨call, pc⟩ | rest
    · cases pc with
      | starting => trivial
      | _ => cases hstart
    · trivial
  own := fun hinv h hmove =>
    let hstep := FillThread.ok_of_move hinv h hmove
    ⟨hstep.1, hstep.2.1⟩
  others := by
    intro w w' tid t t' choice other u hinv h hmove hne hu
    have hs := (FillThread.ok_of_move hinv h hmove).2.2
    rcases u with ⟨call, pc⟩ | rest
    · exact FillPc.Ok.shift hu hs hne
    · trivial

/-- A team in which the invariant holds and every requester knows what its position says. -/
abbrev FillTeam.Safe (team : FillTeam) : Prop :=
  Machine.Holds FillState.Inv (fun w tid t => FillThread.Ok w tid t) team

/-- **Every reachable team is safe.** -/
theorem FillTeam.safe_of_run {index : ObjectIndex} {store : SliceKey → Option SliceValue}
    {fresh : ℕ} {steps : List (Step FillThread FillChoice)} {team : FillTeam}
    (hrun : (fillMachine cfg).run (FillTeam.boot index store fresh) steps = some team) :
    FillTeam.Safe team :=
  (fillMachine_modular cfg).run ⟨.boot index store fresh, fun h => by cases h⟩ hrun

end Cachic
