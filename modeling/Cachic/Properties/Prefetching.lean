import Cachic.Orchestrator.Readahead

/-!
# Prefetching follows real sequences

What a pattern says is compared with the calls that were made.  `Recounts` is the invariant of
whole histories: the counter of a pattern never exceeds the length of the run of calls, each
following on the one before, that its object's history ends in.  Cleaning up may lose a pattern
and never makes one say more.

In the other direction, and between objects, nothing is lost as long as no call finds the table
full: `Narrower` relates a table to the one that saw the calls of a single object only.
-/

namespace Cachic.Readahead

open BoundedTable ReadaheadPolicy

/-- The second of two calls for one object goes on where the first ended, and soon enough. -/
def Follows (earlier later : Observation) : Prop :=
  later.first = saturatingAdd32 earlier.last 1 ∧ later.now - earlier.now < patternTtl

instance (earlier later : Observation) : Decidable (Follows earlier later) :=
  inferInstanceAs (Decidable (_ ∧ _))

/-- The calls for one object. -/
def callsFor (object : ObjectId) (calls : List Observation) : List Observation :=
  calls.filter fun call => call.object = object

theorem callsFor_append (object : ObjectId) (calls more : List Observation) :
    callsFor object (calls ++ more) = callsFor object calls ++ callsFor object more :=
  List.filter_append ..

section Call

variable {object : ObjectId} {call : Observation} (calls : List Observation)

theorem callsFor_cons_of_eq (h : call.object = object) :
    callsFor object (call :: calls) = call :: callsFor object calls :=
  List.filter_cons_of_pos (decide_eq_true h)

theorem callsFor_cons_of_ne (h : call.object ≠ object) :
    callsFor object (call :: calls) = callsFor object calls :=
  List.filter_cons_of_neg (by simpa using h)

end Call

/-! ## One call -/

/-- The pattern was last written by this call. -/
def Pattern.Marks (p : Pattern) (call : Observation) : Prop :=
  p.nextExpected = saturatingAdd32 call.last 1 ∧ p.seen = call.now

theorem marks_nextPattern (entry : Option Pattern) (call : Observation) :
    (nextPattern entry call).Marks call := ⟨rfl, rfl⟩

/-- The counter goes up with a call that follows, and starts again with one that does not. -/
theorem consecutive_nextPattern {p : Pattern} {earlier : Observation} (h : p.Marks earlier)
    (call : Observation) :
    (nextPattern (some p) call).consecutive =
      if Follows earlier call then saturatingAdd32 p.consecutive 1 else 0 := by
  obtain ⟨hnext, hseen⟩ := h
  simp only [nextPattern, hnext, hseen, Follows, and_comm]

section Observe

variable {policy : ReadaheadPolicy} {call : Observation} {object : ObjectId}

/-- A call answers what the pattern of its object says afterwards. -/
theorem observe_answer (policy : ReadaheadPolicy) (call : Observation) :
    ∃ p, (policy.observe call).1.patterns.lookup call.object = some p ∧
      (policy.observe call).2 = access p ∧ p.Marks call := by
  rw [observe_eq]
  exact ⟨_, AList.lookup_insert _, rfl, marks_nextPattern _ _⟩

theorem lookup_observe_ne (hne : object ≠ call.object) {p : Pattern}
    (h : (policy.observe call).1.patterns.lookup object = some p) :
    policy.patterns.lookup object = some p := by
  rw [observe_eq] at h
  exact lookup_of_cleanUp ((AList.lookup_insert_ne hne).symm.trans h)

theorem lookup_observe_of_room (hroom : policy.tracked < maxTracked) (hne : object ≠ call.object) :
    (policy.observe call).1.patterns.lookup object = policy.patterns.lookup object := by
  rw [observe_of_room hroom]
  exact AList.lookup_insert_ne hne

end Observe

/-! ## What a pattern knows of the past -/

/-- The past calls end in a run of calls, each following on the one before, of which the
pattern counts no more than there are. -/
def Pattern.Recounts (p : Pattern) (past : List Observation) : Prop :=
  ∃ links latest, links ++ [latest] <:+ past ∧ (links ++ [latest]).IsChain Follows ∧
    p.consecutive ≤ links.length ∧ p.Marks latest

/-- One call keeps this, whether the pattern was still known or not. -/
theorem recounts_nextPattern {entry : Option Pattern} {past : List Observation}
    (h : ∀ p, entry = some p → p.Recounts past) (call : Observation) :
    (nextPattern entry call).Recounts (past ++ [call]) := by
  have hfresh : (nextPattern entry call).consecutive = 0 →
      (nextPattern entry call).Recounts (past ++ [call]) := fun hzero =>
    ⟨[], call, List.suffix_append _ _, .singleton _, hzero.le, marks_nextPattern _ _⟩
  cases entry with
  | none => exact hfresh rfl
  | some p =>
      obtain ⟨links, latest, hsuffix, hchain, hcount, hmarks⟩ := h p rfl
      have hnext := consecutive_nextPattern hmarks call
      by_cases hfollows : Follows latest call
      · rw [if_pos hfollows] at hnext
        refine ⟨links ++ [latest], call, ?_, ?_, ?_, marks_nextPattern _ _⟩
        · exact List.suffix_concat_iff.mpr (.inr ⟨_, rfl, hsuffix⟩)
        · rw [List.append_assoc]
          exact List.isChain_append_cons_cons.mpr ⟨hchain, hfollows, .singleton _⟩
        · rw [hnext, List.length_append, List.length_singleton, saturatingAdd32]
          omega
      · rw [if_neg hfollows] at hnext
        exact hfresh hnext

/-- Every pattern of the table recounts the calls for its object. -/
def Truthful (policy : ReadaheadPolicy) (history : List Observation) : Prop :=
  ∀ object p, policy.patterns.lookup object = some p → p.Recounts (callsFor object history)

variable {policy : ReadaheadPolicy} {history : List Observation}

theorem Truthful.observe (h : Truthful policy history) (call : Observation) :
    Truthful (policy.observe call).1 (history ++ [call]) := by
  intro object p hp
  rw [callsFor_append]
  by_cases hobject : object = call.object
  · subst hobject
    rw [callsFor_cons_of_eq _ rfl]
    rw [observe_eq] at hp
    have hentry := (AList.lookup_insert _).symm.trans hp
    rw [Option.some.injEq] at hentry
    rw [← hentry]
    exact recounts_nextPattern (fun q hq => h _ q (lookup_of_cleanUp hq)) call
  · rw [callsFor_cons_of_ne _ fun heq => hobject heq.symm]
    exact (List.append_nil _).symm ▸ h object p (lookup_observe_ne hobject hp)

theorem Truthful.observeAll (h : Truthful policy history) (calls : List Observation) :
    Truthful (policy.observeAll calls) (history ++ calls) := by
  induction calls generalizing policy history with
  | nil => exact (List.append_nil history).symm ▸ h
  | cons call calls ih =>
      have hrest := ih (h.observe call)
      rw [List.append_assoc] at hrest
      exact hrest

theorem truthful_new (window : ℕ) : Truthful (new window) [] := by
  intro object p hp
  cases hp

/-- **Only a real sequence counts as one.**  Three calls for the object came before, the last it
had, and each of the four follows on the one before. -/
theorem chain_of_sequential {window : ℕ} {call : Observation}
    (h : (((new window).observeAll history).observe call).2 = .sequential) :
    ∃ x y z, [x, y, z] <:+ callsFor call.object history ∧
      [x, y, z, call].IsChain Follows := by
  obtain ⟨p, hp, hanswer, -⟩ := observe_answer ((new window).observeAll history) call
  have htruth := ((truthful_new window).observeAll history).observe call
  rw [List.nil_append] at htruth
  obtain ⟨links, latest, hsuffix, hchain, hcount, -⟩ := htruth _ p hp
  have hthree : 3 ≤ p.consecutive := access_eq_sequential_iff.mp (hanswer.symm.trans h)
  rw [callsFor_append, callsFor_cons_of_eq _ rfl] at hsuffix
  obtain hnil | ⟨links', heq, hsuffix⟩ := List.suffix_concat_iff.mp hsuffix
  · simp at hnil
  obtain ⟨rfl, hlatest⟩ := List.append_inj' heq rfl
  obtain rfl : latest = call := by simpa using hlatest
  -- the last three links of a run that may be longer
  obtain ⟨x, y, z, hlast⟩ : ∃ x y z, links.drop (links.length - 3) = [x, y, z] := by
    apply List.length_eq_three.mp
    rw [List.length_drop]
    omega
  have htail : [x, y, z] <:+ links := hlast ▸ List.drop_suffix _ _
  refine ⟨x, y, z, htail.trans hsuffix, hchain.suffix ?_⟩
  exact List.suffix_concat_iff.mpr (.inr ⟨[x, y, z], rfl, htail⟩)

/-! ## Calls that find room -/

/-- A run of calls that follow on one another is counted in full, whatever calls for other
objects come in between. -/
theorem consecutive_of_chain {calls : List Observation} {object : ObjectId} {p : Pattern}
    {earlier : Observation} (hquiet : policy.Quiet calls)
    (hp : policy.patterns.lookup object = some p) (hmarks : p.Marks earlier)
    (hchain : (earlier :: callsFor object calls).IsChain Follows) :
    ∃ p', (policy.observeAll calls).patterns.lookup object = some p' ∧
      saturatingAdd32 p.consecutive (callsFor object calls).length ≤ p'.consecutive := by
  induction calls generalizing policy p earlier with
  | nil => exact ⟨p, hp, Nat.min_le_left _ _⟩
  | cons call calls ih =>
      obtain ⟨hroom, hquiet⟩ := hquiet
      by_cases hobject : call.object = object
      · rw [callsFor_cons_of_eq _ hobject] at hchain ⊢
        obtain ⟨hfollows, hchain⟩ := List.isChain_cons_cons.mp hchain
        have hnext : (policy.observe call).1.patterns.lookup object =
            some (nextPattern (some p) call) := by
          rw [observe_of_room hroom, hobject, hp]
          exact AList.lookup_insert _
        obtain ⟨p', hp', hcount⟩ := ih hquiet hnext (marks_nextPattern _ _) hchain
        refine ⟨p', hp', le_trans ?_ hcount⟩
        rw [consecutive_nextPattern hmarks, if_pos hfollows]
        simp only [saturatingAdd32, List.length_cons]
        omega
      · rw [callsFor_cons_of_ne _ hobject] at hchain ⊢
        have hsame := lookup_observe_of_room hroom fun heq => hobject heq.symm
        exact ih hquiet (hsame.trans hp) hmarks hchain

/-- **A real sequence is seen.**  The four calls may have others in between, as long as none of
those after the first finds the table full. -/
theorem sequential_of_chain {rest : List Observation} {x y z call : Observation}
    (hobject : x.object = call.object) (hrest : callsFor call.object rest = [y, z])
    (hchain : [x, y, z, call].IsChain Follows)
    (hquiet : (policy.observe x).1.Quiet (rest ++ [call])) :
    (((policy.observe x).1.observeAll rest).observe call).2 = .sequential := by
  obtain ⟨p, hp, -, hmarks⟩ := observe_answer policy x
  rw [hobject] at hp
  have hcalls : callsFor call.object (rest ++ [call]) = [y, z, call] := by
    rw [callsFor_append, hrest, callsFor_cons_of_eq _ rfl]
    rfl
  obtain ⟨p', hp', hcount⟩ := consecutive_of_chain hquiet hp hmarks (hcalls ▸ hchain)
  obtain ⟨q, hq, hanswer, -⟩ := observe_answer ((policy.observe x).1.observeAll rest) call
  rw [observeAll_append] at hp'
  obtain rfl : q = p' := Option.some.inj (hq.symm.trans hp')
  rw [hanswer, access_eq_sequential_iff]
  rw [hcalls] at hcount
  simp only [saturatingAdd32, List.length_cons, List.length_nil] at hcount
  omega

/-- The table knows the same of one object as the other table, and no object the other does
not. -/
structure Narrower (object : ObjectId) (narrow wide : ReadaheadPolicy) : Prop where
  same : narrow.patterns.lookup object = wide.patterns.lookup object
  keys : narrow.patterns.keys ⊆ wide.patterns.keys

theorem Narrower.refl (object : ObjectId) (policy : ReadaheadPolicy) :
    Narrower object policy policy := ⟨rfl, List.Subset.refl _⟩

section Narrower

variable {object : ObjectId} {narrow wide : ReadaheadPolicy} {call : Observation}

/-- The narrower table has room where the wider one has. -/
theorem Narrower.room (h : Narrower object narrow wide) (hroom : wide.tracked < maxTracked) :
    narrow.tracked < maxTracked := lt_of_le_of_lt (size_le_of_keys_subset h.keys) hroom

/-- A call for the object itself is answered alike. -/
theorem Narrower.observe_both (h : Narrower call.object narrow wide)
    (hroom : wide.tracked < maxTracked) :
    Narrower call.object (narrow.observe call).1 (wide.observe call).1 ∧
      (narrow.observe call).2 = (wide.observe call).2 := by
  rw [observe_of_room (h.room hroom), observe_of_room hroom, h.same]
  dsimp only
  refine ⟨⟨?_, ?_⟩, rfl⟩
  · rw [AList.lookup_insert, AList.lookup_insert]
  · intro other hother
    rw [← AList.mem_keys, AList.mem_insert] at hother ⊢
    exact hother.imp_right fun hmem => h.keys hmem

/-- A call for another object makes no difference. -/
theorem Narrower.observe_wide (h : Narrower object narrow wide)
    (hroom : wide.tracked < maxTracked) (hne : call.object ≠ object) :
    Narrower object narrow (wide.observe call).1 where
  same := h.same.trans (lookup_observe_of_room hroom fun heq => hne heq.symm).symm
  keys := by
    intro other hother
    rw [observe_of_room hroom, ← AList.mem_keys, AList.mem_insert]
    exact .inr (h.keys hother)

/-- **Objects do not disturb one another.**  Of calls that find room, those for one object are
answered as they would be without the others. -/
theorem Narrower.answers {calls : List Observation} (h : Narrower object narrow wide)
    (hquiet : wide.Quiet calls) :
    (wide.answers calls).filter (fun answer => answer.1 = object) =
      narrow.answers (callsFor object calls) := by
  induction calls generalizing narrow wide with
  | nil => rfl
  | cons call calls ih =>
      obtain ⟨hroom, hquiet⟩ := hquiet
      by_cases hobject : call.object = object
      · subst hobject
        obtain ⟨hnext, hanswer⟩ := h.observe_both hroom
        rw [callsFor_cons_of_eq _ rfl, ReadaheadPolicy.answers, ReadaheadPolicy.answers, hanswer,
          List.filter_cons_of_pos (by simp), ih hnext hquiet]
      · rw [callsFor_cons_of_ne _ hobject, ReadaheadPolicy.answers,
          List.filter_cons_of_neg (by simpa using hobject)]
        exact ih (h.observe_wide hroom hobject) hquiet

end Narrower

/-! ## What is fetched ahead -/

theorem prefetch_random (policy : ReadaheadPolicy) (last lastSlice : ℕ) :
    policy.prefetch .random last lastSlice = [] := if_pos (.inl (by decide))

theorem length_prefetch_le (policy : ReadaheadPolicy) (a : Access) (last lastSlice : ℕ) :
    (policy.prefetch a last lastSlice).length ≤ policy.window := by
  unfold prefetch
  split
  · exact Nat.zero_le _
  · dsimp only
    split
    · exact Nat.zero_le _
    · rw [List.length_range']
      simp only [saturatingAdd32]
      omega

theorem mem_prefetch {a : Access} {last lastSlice index : ℕ}
    (h : index ∈ policy.prefetch a last lastSlice) :
    a = .sequential ∧ last + 1 ≤ index ∧ index ≤ lastSlice := by
  unfold prefetch at h
  split at h
  · cases h
  · next ha =>
      dsimp only at h
      split at h
      · cases h
      · rw [List.mem_range'_1] at h
        simp only [saturatingAdd32] at h
        refine ⟨?_, by omega, by omega⟩
        by_contra hother
        exact ha (.inl hother)

/-- **Fetching ahead waits for a sequence.**  A slice is fetched ahead only when the request
completes a run of four for its object, and then it lies behind the request, inside the object,
and is not in the store. -/
theorem mem_maybePrefetch {cfg : Config} {plan : Plan} {window now index : ℕ}
    {order : Arrangement (ObjectId × ℕ)} {contains : SliceKey → Bool}
    (h : index ∈ (((new window).observeAll history).maybePrefetch cfg plan now order contains).2) :
    (∃ x y z, [x, y, z] <:+ callsFor plan.object history ∧
      [x, y, z, ⟨plan.object, (Range.plan plan.wanted cfg.sliceSize).first,
        (Range.plan plan.wanted cfg.sliceSize).last, now, order⟩].IsChain Follows) ∧
    (Range.plan plan.wanted cfg.sliceSize).last < index ∧
    index * cfg.sliceSize < plan.totalLen ∧
    contains ⟨plan.object, plan.info.generation, index⟩ = false := by
  unfold maybePrefetch at h
  split at h
  · cases h
  · next hplan =>
      obtain ⟨hmem, hcontains⟩ := List.mem_filter.mp h
      obtain ⟨hsequential, hbehind, hinside⟩ := mem_prefetch hmem
      refine ⟨chain_of_sequential hsequential, hbehind, ?_, by simpa using hcontains⟩
      have hdiv : index ≤ (plan.totalLen - 1) / cfg.sliceSize :=
        le_trans hinside (Nat.min_le_left _ _)
      have hmul := (Nat.le_div_iff_mul_le cfg.sliceSize_pos).mp hdiv
      have hlen : plan.totalLen ≠ 0 := fun hzero => hplan (.inl hzero)
      omega

/-- **Prefetching fires only on a real sequence, and the tracker stays bounded.**  After any
history of calls: the table holds at most `maxTracked` patterns; a call is classified as
sequential only if it and the three before it for its object follow on one another; such a run
is classified so if no call after its first found the table full; of further calls that find
room, those for one object are answered as without the others; and what `prefetch` returns is
empty for random access, lies behind the request and inside the object, and fits the window. -/
theorem prefetch_follows_sequences (window : ℕ) (history : List Observation) :
    ((new window).observeAll history).tracked ≤ maxTracked ∧
    (∀ call, (((new window).observeAll history).observe call).2 = .sequential →
      ∃ x y z, [x, y, z] <:+ callsFor call.object history ∧ [x, y, z, call].IsChain Follows) ∧
    (∀ before x rest y z call, history = before ++ x :: rest → x.object = call.object →
      callsFor call.object rest = [y, z] → [x, y, z, call].IsChain Follows →
      ((new window).observeAll (before ++ [x])).Quiet (rest ++ [call]) →
      (((new window).observeAll history).observe call).2 = .sequential) ∧
    (∀ object calls, ((new window).observeAll history).Quiet calls →
      (((new window).observeAll history).answers calls).filter (fun answer => answer.1 = object) =
        ((new window).observeAll history).answers (callsFor object calls)) ∧
    ∀ a last lastSlice,
      ((new window).observeAll history).prefetch .random last lastSlice = [] ∧
      (∀ index ∈ ((new window).observeAll history).prefetch a last lastSlice,
        last + 1 ≤ index ∧ index ≤ lastSlice) ∧
      (((new window).observeAll history).prefetch a last lastSlice).length ≤ window := by
  refine ⟨?_, fun call => chain_of_sequential, ?_, fun object calls => (Narrower.refl _ _).answers,
    fun a last lastSlice =>
      ⟨prefetch_random _ _ _, fun index hindex => (mem_prefetch hindex).2, ?_⟩⟩
  · exact tracked_observeAll_le _ (Nat.zero_le _) history
  · rintro before x rest y z call rfl hobject hrest hchain hquiet
    rw [observeAll_append] at hquiet
    have hsplit : (new window).observeAll (before ++ x :: rest) =
        ((((new window).observeAll before).observe x).1).observeAll rest := observeAll_append _ _ _
    rw [hsplit]
    exact sequential_of_chain hobject hrest hchain hquiet
  · refine le_trans (length_prefetch_le _ _ _ _) ?_
    rw [window_observeAll]
    exact Nat.mod_le _ _

namespace Scenario

def streamed : ObjectId := ⟨List.replicate 16 2, rfl⟩

def other : ObjectId := ⟨List.replicate 16 1, rfl⟩

/-- A request for one slice, so many seconds after the start. -/
def request (object : ObjectId) (index seconds : ℕ) : Observation where
  object := object
  first := index
  last := index
  now := seconds * 10 ^ 9

/-- Three requests in a row, and one for another object in between. -/
def streaming : List Observation :=
  [request streamed 0 1, request other 7 2, request streamed 1 3, request streamed 2 4]

theorem prefetch_follows_sequences_streaming :
    (((new 8).observeAll streaming).observe (request streamed 3 5)).2 = .sequential :=
  (prefetch_follows_sequences 8 streaming).2.2.1 [] _ _ _ _ _ rfl rfl rfl (by decide)
    ⟨by decide, by decide, by decide, by decide, trivial⟩

end Scenario

end Cachic.Readahead
