import Cachic.Upstream.Permits

/-!
# What the permits do for the services

The ceilings are there so that one slow origin does not take everybody's permits, and the
permits are taken in one order so that nobody waits in a circle.  `stalled_services_isolated`
is the first, with the condition under which it holds; `Cachic.Upstream.Permits` has the
second.  The rest of this module is about single calls: `streams_unbounded` on what a ceiling
does not bound, and `permits_transparent` on what the permits leave as it is.
-/

namespace Cachic

open Gated ThreadTeam ActionLang

/-! ## A stalled origin -/

/-- The call a task is. -/
def FetchTask.fetch : FetchTask → Fetch
  | .outside w => w.fetch
  | .entering v _ _ => v.fetch
  | .queued v _ _ => v.fetch
  | .inside v _ => v.fetch
  | .leaving w _ _ => w.fetch

section Stalled

variable {client : ClientConfig} {limits : InflightLimits} {team : FetchTeam}

/-- What satisfies `p` satisfies one of some predicates, so it is counted under one of them. -/
theorem countP_le_sum_countP {α β : Type} {p : α → Bool} {q : β → α → Bool} {keys : List β}
    {l : List α} (h : ∀ x ∈ l, p x = true → ∃ k ∈ keys, q k x = true) :
    l.countP p ≤ (keys.map fun k => l.countP (q k)).sum := by
  induction l with
  | nil => simp
  | cons x rest ih =>
      have hrest := ih fun y hy => h y (List.mem_cons_of_mem x hy)
      have hsplit : (keys.map fun k => (x :: rest).countP (q k)).sum =
          (keys.map fun k => rest.countP (q k)).sum +
            (keys.map fun k => if q k x then 1 else 0).sum := by
        rw [← List.sum_map_add]
        simp only [List.countP_cons]
      rw [List.countP_cons, hsplit]
      refine Nat.add_le_add hrest ?_
      split
      · next hx =>
          obtain ⟨k, hk, hq⟩ := h x List.mem_cons_self hx
          refine List.single_le_sum (fun _ _ => Nat.zero_le _) 1 ?_
          exact List.mem_map.mpr ⟨k, hk, if_pos hq⟩
      · exact Nat.zero_le _

/-- A permit a call holds is one of its route. -/
theorem FetchTask.Routed.mem_route {t : FetchTask} {gate : PermitGate} (ht : t.Routed limits)
    (h : t.holds gate = true) : gate ∈ (t.fetch.route limits).gates := by
  have htake : ∀ {route : Gated.Route PermitGate.rank} {k : ℕ}, route.has k gate = true →
      gate ∈ route.gates := fun hhas => List.mem_of_mem_take (of_decide_eq_true hhas)
  cases t with
  | outside w => cases h
  | entering v route passed | queued v route passed | inside v route | leaving w route held =>
      obtain rfl := ht
      exact htake h

theorem FetchTask.Routed.waitsAt_mem_route {t : FetchTask} {gate : PermitGate}
    (ht : t.Routed limits) (h : t.waitsAt = some gate) :
    gate ∈ (t.fetch.route limits).gates := by
  cases t with
  | queued v route passed =>
      obtain rfl := ht
      exact List.mem_of_getElem? h
  | _ => cases h

/-- Requests to services whose ceilings leave a global permit leave a permit of everything but
those services. -/
theorem FetchTeam.Sound.stalled_leave_permit {stalled : List String} {gate : PermitGate}
    (h : team.Sound limits)
    (hlimits : ∀ service ∈ stalled, (limits.perService service).isSome = true)
    (hroom : (stalled.map fun service => limits.capacity (.service service)).sum <
      limits.maxInflight) (hgate : ∀ service ∈ stalled, gate ≠ .service service) :
    team.threads.countP (fun t => t.isStalled (fun v _ => decide (v.fetch.service ∈ stalled)) &&
      t.holds gate) < limits.capacity gate := by
  -- a request to one of those services is in the count of that service
  have hrequest : ∀ t ∈ team.threads,
      t.isStalled (fun v _ => decide (v.fetch.service ∈ stalled)) = true →
      ∃ service ∈ stalled, t.fetch.service = service ∧ t.holds (.service service) = true := by
    intro t ht hst
    cases t with
    | inside v route =>
        have hmem : v.fetch.service ∈ stalled := of_decide_eq_true hst
        refine ⟨_, hmem, rfl, (h.routed _ ht).holds_service (hlimits _ hmem) ?_⟩
        exact decide_eq_true rfl
    | _ => cases hst
  cases gate with
  | inflight =>
      have hle : team.threads.countP (fun t =>
          t.isStalled (fun v _ => decide (v.fetch.service ∈ stalled)) && t.holds .inflight) ≤
          (stalled.map fun service =>
            team.threads.countP (Gated.Task.holds (.service service))).sum := by
        refine countP_le_sum_countP fun t ht hboth => ?_
        obtain ⟨service, hmem, -, hholds⟩ := hrequest t ht (Bool.and_eq_true_iff.mp hboth).1
        exact ⟨service, hmem, hholds⟩
      refine lt_of_le_of_lt (hle.trans (List.sum_le_sum fun service _ => ?_)) hroom
      exact (h.orderly.balanced (.service service)).held_le
  | service name =>
      have hnone : team.threads.countP (fun t => t.isStalled (fun v _ =>
          decide (v.fetch.service ∈ stalled)) && t.holds (.service name)) = 0 := by
        refine List.countP_eq_zero.mpr fun t ht hboth => ?_
        obtain ⟨hst, hholds⟩ := Bool.and_eq_true_iff.mp hboth
        obtain ⟨service, hmem, hsame, -⟩ := hrequest t ht hst
        have hname := (Fetch.service_mem_route.mp ((h.routed t ht).mem_route hholds)).1
        exact hgate service hmem (by rw [← hsame, hname])
      rw [hnone]
      exact Nat.lt_of_lt_of_le Nat.zero_lt_one (le_max_right _ _)

/-- A call that cannot move has ended, or it waits for a permit. -/
theorem ended_or_waits {tid : ℕ} {t : FetchTask} (ht : team.threads[tid]? = some t)
    (hstill : ¬ Able (fetchBehaviour client limits) team tid) :
    (∃ f how, t = .outside (.ended f how)) ∨ ∃ gate, t.waitsAt = some gate := by
  by_cases hout : t.isOutside = true
  · cases t with
    | outside w =>
        have hdone : ∀ c, (fetchBehaviour client limits).outer w c = none := by
          intro c
          by_contra hmoves
          refine hstill (able_of_move (.own c) ht (by simp) ?_)
          simpa [Gated.Task.move, Option.isSome_iff_ne_none] using hmoves
        obtain ⟨f, how, rfl⟩ := fetchBehaviour_outer_able hdone
        exact .inl ⟨f, how, rfl⟩
    | _ => cases hout
  · have hin : ∀ v route, t ≠ .inside v route := by
      rintro v route rfl
      obtain ⟨c, hc⟩ := fetchBehaviour_inner_able client limits v
      exact hstill (able_of_inner ht hc)
    obtain ⟨gate, hwaits, -⟩ := (able_or_waits ht (by simpa using hout) hin).resolve_left hstill
    exact .inr ⟨gate, hwaits⟩

/-- **A stalled origin stops nobody else.**  Let the services `stalled` have ceilings whose sum
leaves a global permit.  In a state in which the only calls that can still move are requests to
those services, every call to any other service has ended. -/
theorem stalled_services_isolated {stalled : List String} {steps : List FetchStep}
    (hlimits : ∀ service ∈ stalled, (limits.perService service).isSome = true)
    (hroom : (stalled.map fun service => limits.capacity (.service service)).sum <
      limits.maxInflight)
    (hrun : (fetches client limits).run (FetchTeam.new limits) steps = some team)
    (honly : ∀ tid, Able (fetchBehaviour client limits) team tid →
      ∃ service ∈ stalled, ∃ t, team.threads[tid]? = some t ∧ t.isRequestOf service = true) :
    ∀ t ∈ team.threads, t.fetch.service ∉ stalled → ∃ f how, t = .outside (.ended f how) := by
  have hsound := (FetchTeam.Sound.new limits).run hrun
  intro t ht hservice
  obtain ⟨tid, htid⟩ := List.getElem?_of_mem ht
  -- the call is not one of those that can move
  have hstill : ¬ Able (fetchBehaviour client limits) team tid := by
    intro hable
    obtain ⟨service, hmem, u, hu, hrequest⟩ := honly tid hable
    obtain rfl : t = u := Option.some.inj (htid.symm.trans hu)
    cases t with
    | inside v route =>
        obtain rfl : v.fetch.service = service := of_decide_eq_true hrequest
        exact hservice hmem
    | _ => cases hrequest
  refine (ended_or_waits htid hstill).resolve_right ?_
  rintro ⟨gate, hwaits⟩
  -- so it would wait, and for a permit the stalled services leave
  have hfree : ∀ service ∈ stalled, gate ≠ .service service := by
    rintro service hmem rfl
    have hroute := (hsound.routed t ht).waitsAt_mem_route hwaits
    exact hservice ((Fetch.service_mem_route.mp hroute).1 ▸ hmem)
  have hclosed : ∀ u ∈ team.threads, ∀ g g', (∀ service ∈ stalled, g ≠ .service service) →
      u.holds g = true → u.waitsAt = some g' → ∀ service ∈ stalled, g' ≠ .service service := by
    rintro u hu g g' hg hholds hwaits' service hmem rfl
    cases u with
    | queued v route passed =>
        have hlt := Gated.Route.rank_lt_of_has hwaits' hholds
        exact absurd hlt (by simp [PermitGate.rank])
    | _ => cases hwaits'
  obtain ⟨uid, u, huid, hrunning, hable⟩ := exists_able_of_waiting
    (fun v _ => decide (v.fetch.service ∈ stalled)) _ hsound.orderly
    (fun v _ _ => fetchBehaviour_inner_able client limits v) hclosed
    (fun g hg => hsound.stalled_leave_permit hlimits hroom hg) ⟨t, ht, gate, hwaits, hfree⟩
  obtain ⟨service, hmem, u', hu', hrequest⟩ := honly uid hable
  obtain rfl : u = u' := Option.some.inj (huid.symm.trans hu')
  cases u with
  | inside v route =>
      obtain rfl : v.fetch.service = service := of_decide_eq_true hrequest
      simp [Gated.Task.isStalled, hmem] at hrunning
  | _ => cases hrequest

theorem Scenario.stalled_wsus_isolated : ∃ team : FetchTeam,
    (fetches .default twoAtATime).run (FetchTeam.new twoAtATime) (wsusSends ++ steamEnds) =
      some team ∧
      ∀ t ∈ team.threads, t.fetch.service ∉ ["wsus"] → ∃ f how, t = .outside (.ended f how) := by
  refine ⟨_, rfl, @stalled_services_isolated .default twoAtATime _ ["wsus"]
    (wsusSends ++ steamEnds) (by decide) (by decide) rfl ?_⟩
  rintro tid ⟨choice, -, hstep⟩
  -- the second call has ended, and there is no third
  match tid with
  | 0 => exact ⟨"wsus", List.mem_singleton_self _, _, rfl, rfl⟩
  | 1 => cases choice with
    | gate | drop => cases hstep
    | own c => cases c <;> cases hstep
  | tid + 2 => cases hstep

end Stalled

/-! ## Streams -/

/-- A stream that has been returned and is being read. -/
def FetchTask.isStreaming (f : Fetch) (t : FetchTask) : Bool :=
  match t with
  | .outside (.streaming g) => g = f
  | _ => false

/-- An answer that is no refusal. -/
def plainAnswer : RawResponse where
  status := 200
  headers := []
  declared := none
  chunks := []
  failure := none

/-- The steps of one more call of `fetch_stream`, up to its return. -/
def openStream (limits : InflightLimits) (f : Fetch) (tid : ℕ) : List FetchStep :=
  [.spawn (.outside (.checking f)), .go tid (.own (.resolved (.ok ())))] ++
    (if (limits.perService f.service).isSome then
      [.go tid .gate, .go tid .gate, .go tid (.own (.reply (.ok plainAnswer))), .go tid .gate,
        .go tid .gate]
    else [.go tid .gate, .go tid (.own (.reply (.ok plainAnswer))), .go tid .gate])

section Streams

variable {client : ClientConfig} {limits : InflightLimits}

theorem run_openStream {f : Fetch} {threads : List FetchTask} (hstream : f.request.range = none) :
    (fetches client limits).run ⟨fun gate => .new (limits.capacity gate), threads⟩
        (openStream limits f threads.length) =
      some ⟨fun gate => .new (limits.capacity gate), threads ++ [.outside (.streaming f)]⟩ := by
  have hspawn : (fetches client limits).step ⟨fun gate => .new (limits.capacity gate), threads⟩
      (.spawn (.outside (.checking f))) =
      some ⟨fun gate => .new (limits.capacity gate), threads ++ [.outside (.checking f)]⟩ := rfl
  have hchecked : ∀ s, (fetches client limits).move threads.length (.outside (.checking f))
      (.own (.resolved (.ok ()))) s =
      some (.entering (.sending f client.retries) (f.route limits) 0, s) := fun _ => rfl
  have hanswered : f.answered client client.retries (.ok plainAnswer) = .inr (.streaming f) := by
    simp [Fetch.answered, hstream, refusal, plainAnswer, isRedirection, isSuccess]
  have hreply : ∀ s, (fetches client limits).move threads.length
      (.inside (.sending f client.retries) (f.route limits))
      (.own (.reply (.ok plainAnswer))) s =
      some (.leaving (.streaming f) (f.route limits) (f.route limits).gates.length, s) := by
    intro s
    simp [fetches, machine, Gated.Task.move, fetchBehaviour, hanswered]
  have hleft : ∀ s, (fetches client limits).move threads.length
      (.leaving (.streaming f) (f.route limits) 0) .gate s =
      some (.outside (.streaming f), s) := fun _ => rfl
  rw [openStream, List.cons_append, Machine.run, hspawn, Option.bind_some, List.cons_append,
    Machine.run_last (hchecked _), List.nil_append]
  split
  · next hlimit =>
      have hgates : (f.route limits).gates = [.service f.service] := by
        simp [Fetch.route, hlimit, hstream]
      have hpos : limits.capacity (.service f.service) ≠ 0 :=
        (Nat.lt_of_lt_of_le Nat.zero_lt_one (le_max_right _ _)).ne'
      -- one permit is taken, and comes back
      have hpass : (fetches client limits).move threads.length
          (.entering (.sending f client.retries) (f.route limits) 0) .gate
          (fun gate => .new (limits.capacity gate)) =
          some (.entering (.sending f client.retries) (f.route limits) 1,
            Function.update (fun gate => .new (limits.capacity gate)) (.service f.service)
              ⟨limits.capacity (.service f.service) - 1, [], []⟩) := by
        simp [fetches, machine, Gated.Task.move, hgates, Semaphore.acquire, Semaphore.new, hpos]
      have hinside : ∀ s, (fetches client limits).move threads.length
          (.entering (.sending f client.retries) (f.route limits) 1) .gate s =
          some (.inside (.sending f client.retries) (f.route limits), s) := by
        intro s
        simp [fetches, machine, Gated.Task.move, hgates]
      have hback : (fetches client limits).move threads.length
          (.leaving (.streaming f) (f.route limits) 1) .gate
          (Function.update (fun gate => .new (limits.capacity gate)) (.service f.service)
            ⟨limits.capacity (.service f.service) - 1, [], []⟩) =
          some (.leaving (.streaming f) (f.route limits) 0,
            fun gate => .new (limits.capacity gate)) := by
        simp [fetches, machine, Gated.Task.move, hgates, Semaphore.release,
          Nat.sub_add_cancel (Nat.pos_of_ne_zero hpos), Semaphore.new]
      rw [Machine.run_last hpass, Machine.run_last (hinside _), Machine.run_last (hreply _), hgates,
        List.length_singleton, Machine.run_last hback, Machine.run_last (hleft _)]
      rfl
  · next hlimit =>
      have hgates : (f.route limits).gates = [] := by
        simp [Fetch.route, hlimit, hstream]
      have hinside : ∀ s, (fetches client limits).move threads.length
          (.entering (.sending f client.retries) (f.route limits) 0) .gate s =
          some (.inside (.sending f client.retries) (f.route limits), s) := by
        intro s
        simp [fetches, machine, Gated.Task.move, hgates]
      rw [Machine.run_last (hinside _), Machine.run_last (hreply _), hgates, List.length_nil,
        Machine.run_last (hleft _)]
      rfl

/-- **A ceiling does not bound streams.**  The permit of a `fetch_stream` is back when the
stream is returned, so that any number of streams of one service are open at a time, under any
ceiling, and every permit is free meanwhile. -/
theorem streams_unbounded {f : Fetch} (hstream : f.request.range = none) (n : ℕ) :
    ∃ steps team, (fetches client limits).run (FetchTeam.new limits) steps = some team ∧
      team.threads.countP (FetchTask.isStreaming f) = n ∧
      ∀ gate, team.shared gate = .new (limits.capacity gate) := by
  suffices h : ∃ steps, (fetches client limits).run (FetchTeam.new limits) steps =
      some ⟨fun gate => .new (limits.capacity gate),
        List.replicate n (.outside (.streaming f))⟩ by
    obtain ⟨steps, hrun⟩ := h
    refine ⟨steps, _, hrun, ?_, fun gate => rfl⟩
    simp [List.countP_replicate, FetchTask.isStreaming]
  induction n with
  | zero => exact ⟨[], rfl⟩
  | succ n ih =>
      obtain ⟨steps, hrun⟩ := ih
      refine ⟨steps ++ openStream limits f n, Machine.run_append_of_eq hrun ?_⟩
      have hone := @run_openStream client limits f
        (List.replicate n (.outside (.streaming f))) hstream
      rw [List.length_replicate] at hone
      rw [hone, List.replicate_succ']

/-- Three streams from a service that is allowed one request at a time. -/
theorem Scenario.streams_unbounded_wsus : ∃ steps team,
    (fetches .default twoAtATime).run (FetchTeam.new twoAtATime) steps = some team ∧
      team.threads.countP
        (FetchTask.isStreaming ⟨"wsus", ⟨"http://wsus/all", none, []⟩⟩) = 3 ∧
      ∀ gate, team.shared gate = .new (twoAtATime.capacity gate) :=
  streams_unbounded rfl 3

end Streams

/-! ## The permits do not change what is fetched

`Cachic.Orchestrator.Programs` has `fetch_range` without its permits, as a program that asks
for a resolution and for answers.  -/

/-- Give a program the answers it asks for, one after the other. -/
def follow {α : Type} (s : Shared) : List Cachic.Choice → Cachic.Task α → Option (Cachic.Task α)
  | [], p => some p
  | choice :: rest, p =>
      match p with
      | .ret _ => none
      | .act a next => (exec a choice s).bind fun r => follow s rest (next r.1)

/-- What a step tells the call that takes it. -/
def toldBy : Gated.Choice FetchChoice → List Cachic.Choice
  | .own (.resolved answer) => [.resolved answer]
  | .own (.reply answer) => [.reply answer]
  | _ => []

/-- What the steps of a run tell one call. -/
def toldTo (tid : ℕ) : List FetchStep → List Cachic.Choice
  | [] => []
  | .spawn _ :: steps => toldTo tid steps
  | .go mover choice :: steps =>
      if mover = tid then toldBy choice ++ toldTo tid steps else toldTo tid steps

/-- What a call of `fetch_range` has still to do, without its permits. -/
def FetchTask.rest (client : ClientConfig) (purpose : Purpose) :
    FetchTask → Option (Cachic.Task (Except UpstreamError UpstreamResponse))
  | .outside w => ofOutside w
  | .entering v _ _ => ofInside v
  | .queued v _ _ => ofInside v
  | .inside v _ => ofInside v
  | .leaving w _ _ => ofOutside w
where
  ofInside : FetchInside → Option (Cachic.Task (Except UpstreamError UpstreamResponse))
    | .sending f retries => f.request.range.map fun range =>
        attempt client purpose f.request range.1 range.2 retries
    | .receiving f start stop response =>
        some (.ret (receive client f.request.url start stop response))
  ofOutside : FetchOutside → Option (Cachic.Task (Except UpstreamError UpstreamResponse))
    | .checking f => f.request.range.map fun range =>
        fetchRange client purpose f.request.url f.request.headers range.1 range.2
    | .ended _ (.response result) => some (.ret result)
    | _ => none

section Transparent

variable {client : ClientConfig} {limits : InflightLimits}

theorem follow_attempt_ok {purpose : Purpose} {request : Request} {start stop : ℕ}
    (shared : Shared) (retries : ℕ) (response : RawResponse) :
    follow shared [.reply (.ok response)] (attempt client purpose request start stop retries) =
      some (.ret (receive client request.url start stop response)) := by
  cases retries <;> rfl

/-- What a call makes of an answer is what the program makes of it. -/
theorem Fetch.follow_answered {f : Fetch} {purpose : Purpose} {retries start stop : ℕ}
    {answer : Except TransportError RawResponse} (shared : Shared)
    (hrange : f.request.range = some (start, stop)) :
    ∃ p, FetchTask.rest.ofInside client purpose (.sending f retries) = some p ∧
      (match f.answered client retries answer with
        | .inl v => FetchTask.rest.ofInside client purpose v
        | .inr w => FetchTask.rest.ofOutside client purpose w) =
        follow shared [.reply answer] p := by
  refine ⟨attempt client purpose f.request start stop retries, ?_, ?_⟩
  · simp only [FetchTask.rest.ofInside, hrange, Option.map_some]
  cases answer with
  | ok response =>
      rw [follow_attempt_ok]
      simp only [Fetch.answered, hrange]
      split
      · next v heq =>
          split at heq <;> cases heq
          rfl
      · next w heq =>
          split at heq <;> cases heq
          rfl
  | error source =>
      simp only [Fetch.answered, hrange]
      cases retries with
      | zero => rfl
      | succ retries =>
          have hprogram : follow shared [.reply (.error source)]
              (attempt client purpose f.request start stop (retries + 1)) =
              some (if source.isConnect || source.isTimeout then
                attempt client purpose f.request start stop retries
              else .ret (.error (.request f.request.url source))) := rfl
          rw [hprogram]
          by_cases htransient : (source.isConnect || source.isTimeout) = true
          · simp only [if_pos htransient, FetchTask.rest.ofInside, hrange, Option.map_some]
          · simp only [if_neg htransient, FetchTask.rest.ofOutside]

/-- `fetch_stream` does not end in a response. -/
theorem Fetch.rest_of_stream (purpose : Purpose) {f : Fetch} {retries : ℕ}
    {answer : Except TransportError RawResponse} {w : FetchOutside}
    (hrange : f.request.range = none) (h : f.answered client retries answer = .inr w) :
    FetchTask.rest.ofOutside client purpose w = none := by
  cases answer with
  | ok response =>
      simp only [Fetch.answered, hrange] at h
      split at h <;> cases h <;> rfl
  | error source =>
      simp only [Fetch.answered, hrange] at h
      cases h
      rfl

/-- A step of a call is the step of the program with what it was told, or none of it. -/
theorem FetchTask.rest_of_move {purpose : Purpose} {tid : ℕ} {choice : Gated.Choice FetchChoice}
    {s s' : PermitGate → Semaphore ℕ} {t t' : FetchTask} (shared : Shared)
    (h : Moves (fetchBehaviour client limits) tid s choice t t' s')
    {p' : Cachic.Task (Except UpstreamError UpstreamResponse)}
    (hrest : t'.rest client purpose = some p') :
    ∃ p, t.rest client purpose = some p ∧
      follow shared (toldBy choice) p = some p' := by
  cases h with
  | @outer w w' c hout =>
      rcases fetchBehaviour_outer hout with ⟨f, e, rfl, rfl, rfl⟩ | ⟨f, rfl, rfl, rfl⟩
      · cases hrange : f.request.range with
        | none => simp [FetchTask.rest, FetchTask.rest.ofOutside, hrange] at hrest
        | some range =>
            simp only [FetchTask.rest, FetchTask.rest.ofOutside, hrange, Option.isSome_some,
              if_true, Option.some.injEq] at hrest
            subst hrest
            refine ⟨_, by simp only [FetchTask.rest, FetchTask.rest.ofOutside, hrange]; rfl, rfl⟩
      · cases hrest
  | @enter w v route c hout =>
      obtain ⟨f, rfl, rfl, rfl, rfl⟩ := fetchBehaviour_enter hout
      cases hrange : f.request.range with
      | none => simp [FetchTask.rest, FetchTask.rest.ofInside, hrange] at hrest
      | some range =>
          simp only [FetchTask.rest, FetchTask.rest.ofInside, hrange, Option.map_some,
            Option.some.injEq] at hrest
          subst hrest
          refine ⟨_, by simp only [FetchTask.rest, FetchTask.rest.ofOutside, hrange]; rfl, ?_⟩
          have hrequest : f.request =
              ⟨f.request.url, some (range.1, range.2), f.request.headers⟩ := by
            rw [← hrange]
          rw [hrequest]
          rfl
  | @inner v v' route c hinner =>
      rcases fetchBehaviour_inner hinner with ⟨f, retries, answer, rfl, rfl, hnext⟩ |
        ⟨_, _, _, _, _, _, hnext⟩
      · have hranged : ∃ start stop, f.request.range = some (start, stop) := by
          rcases Fetch.answered_again hnext.symm with ⟨_, _, _, _, _, _, hsome⟩ | ⟨a, b, _, _, h, _⟩
          · obtain ⟨range, hrange⟩ := Option.isSome_iff_exists.mp hsome
            exact ⟨range.1, range.2, hrange⟩
          · exact ⟨a, b, h⟩
        obtain ⟨start, stop, hrange⟩ := hranged
        refine (Fetch.follow_answered shared hrange).imp fun p hp => ⟨hp.1, hp.2.symm.trans ?_⟩
        rw [← hrest, ← hnext]
        rfl
      · cases hnext
  | @finish v w route c hinner =>
      rcases fetchBehaviour_inner hinner with ⟨f, retries, answer, rfl, rfl, hnext⟩ |
        ⟨f, start, stop, response, rfl, rfl, hnext⟩
      · cases hrange : f.request.range with
        | none =>
            exfalso
            have hnone := Fetch.rest_of_stream purpose hrange hnext.symm
            exact absurd (hnone.symm.trans hrest) (by simp)
        | some range =>
            refine (Fetch.follow_answered shared hrange).imp fun p hp =>
              ⟨hp.1, hp.2.symm.trans ?_⟩
            rw [← hrest, ← hnext]
            rfl
      · cases hnext
        exact ⟨p', hrest, rfl⟩
  | @drop w w' hdrop => cases w <;> cases hdrop <;> cases hrest
  | @abandon v route passed gate hgate => cases v <;> cases hrest
  | @abandonInside v route => cases v <;> cases hrest
  | arrive ht _ => rcases ht with rfl | rfl <;> exact ⟨p', hrest, rfl⟩
  | pass _ _ | queue _ _ | collect _ _ | giveBack _ | nothingBack _ | leave =>
      exact ⟨p', hrest, rfl⟩

theorem follow_append {α : Type} {s : Shared} {p q r : Cachic.Task α}
    {choices more : List Cachic.Choice} (h : follow s choices p = some q)
    (h' : follow s more q = some r) : follow s (choices ++ more) p = some r := by
  induction choices generalizing p with
  | nil =>
      obtain rfl : p = q := by simpa [follow] using h
      exact h'
  | cons choice rest ih =>
      cases p with
      | ret value => cases h
      | act a next =>
          simp only [follow, Option.bind_eq_some_iff] at h
          obtain ⟨answer, hexec, hrest⟩ := h
          simp only [List.cons_append, follow, hexec, Option.bind_some]
          exact ih hrest

theorem FetchTask.rest_of_run (purpose : Purpose) {tid : ℕ} {steps : List FetchStep}
    {team later : FetchTeam} {t t' : FetchTask} (shared : Shared)
    (hrun : (fetches client limits).run team steps = some later)
    (ht : team.threads[tid]? = some t) (ht' : later.threads[tid]? = some t')
    {p' : Cachic.Task (Except UpstreamError UpstreamResponse)}
    (hrest : t'.rest client purpose = some p') :
    ∃ p, t.rest client purpose = some p ∧ follow shared (toldTo tid steps) p = some p' := by
  induction steps generalizing team t with
  | nil =>
      obtain rfl : team = later := by simpa [Machine.run] using hrun
      obtain rfl : t = t' := Option.some.inj (ht.symm.trans ht')
      exact ⟨p', hrest, rfl⟩
  | cons st steps ih =>
      rw [Machine.run, Option.bind_eq_some_iff] at hrun
      obtain ⟨next, hnext, hlater⟩ := hrun
      cases st with
      | spawn u =>
          obtain ⟨-, rfl⟩ := Machine.step_spawn_iff.mp hnext
          refine ih hlater ?_
          rw [List.getElem?_append_left (List.getElem?_eq_some_iff.mp ht).1]
          exact ht
      | go mover choice =>
          obtain ⟨u, u', s', hu, hmove, rfl⟩ := Machine.step_go_iff.mp hnext
          by_cases hmine : mover = tid
          · subst hmine
            obtain rfl : t = u := Option.some.inj (ht.symm.trans hu)
            have hkept : (team.threads.set mover u')[mover]? = some u' := by
              rw [List.getElem?_set_self (List.getElem?_eq_some_iff.mp ht).1]
            obtain ⟨q, hq, hfollow⟩ := ih hlater hkept
            obtain ⟨p, hp, hstep⟩ := FetchTask.rest_of_move shared (moves_of_move hmove) hq
            refine ⟨p, hp, ?_⟩
            rw [toldTo, if_pos rfl]
            exact follow_append hstep hfollow
          · have hkept : (team.threads.set mover u')[tid]? = some t := by
              rw [List.getElem?_set_ne hmine]
              exact ht
            obtain ⟨p, hp, hfollow⟩ := ih hlater hkept
            refine ⟨p, hp, ?_⟩
            rw [toldTo, if_neg hmine]
            exact hfollow

/-- **The permits change when a range is fetched, not what is fetched.**  Among any number of
other calls, a call of `fetch_range` that ends in a response ends in the one the program without
permits returns on the same answers. -/
theorem permits_transparent {f : Fetch} {start stop tid : ℕ} {steps : List FetchStep}
    {team later : FetchTeam} {result : Except UpstreamError UpstreamResponse}
    (hrange : f.request.range = some (start, stop))
    (hstart : team.threads[tid]? = some (.outside (.checking f)))
    (hrun : (fetches client limits).run team steps = some later)
    (hended : later.threads[tid]? = some (.outside (.ended f (.response result)))) :
    ∀ purpose shared, follow shared (toldTo tid steps)
        (fetchRange client purpose f.request.url f.request.headers start stop) =
      some (.ret result) := by
  intro purpose shared
  obtain ⟨p, hp, hfollow⟩ := FetchTask.rest_of_run purpose shared hrun hstart hended rfl
  simp only [FetchTask.rest, FetchTask.rest.ofOutside, hrange, Option.map_some,
    Option.some.injEq] at hp
  subst hp
  exact hfollow

/-- A client with one call, which is about to be checked. -/
def Scenario.oneCall : FetchTeam where
  shared := fun gate => .new (twoAtATime.capacity gate)
  threads := [.outside (.checking (firstBytes "steam"))]

/-- The call's first request times out and the second is reset. -/
def Scenario.retried : List FetchStep :=
  [.go 0 (.own (.resolved (.ok ()))), .go 0 .gate, .go 0 .gate,
    .go 0 (.own (.reply (.error ⟨false, true, false, "timeout"⟩))),
    .go 0 (.own (.reply (.error ⟨false, false, true, "reset"⟩))), .go 0 .gate, .go 0 .gate]

theorem Scenario.permits_transparent_retried : ∃ later : FetchTeam,
    (fetches .default twoAtATime).run oneCall retried = some later ∧
      ∀ purpose shared, follow shared (toldTo 0 retried)
          (fetchRange .default purpose (firstBytes "steam").request.url [] 0 3) =
        some (.ret (.error (.request (firstBytes "steam").request.url
          ⟨false, false, true, "reset"⟩))) :=
  ⟨_, rfl, @permits_transparent .default twoAtATime (firstBytes "steam") 0 3 0 retried oneCall _ _
    rfl rfl rfl rfl⟩

end Transparent

end Cachic
