import Mathlib.Tactic

/-!
# Work started ahead of its consumer

A consumer takes the results of a list of items one after another and stops at the
first that failed.  So that it does not wait for each item in turn, items are started
ahead of their turn: at most `limit` are started and not yet taken at any time, and
they are taken in the order of the list, whichever finishes first.

Nothing moves unless the consumer polls.  `Source.poll` is one poll: it first starts
items while the window has room, and then looks at the oldest.  Between two polls the
rest of the world moves as it likes (`world`), the started items with it, and at any
time the consumer can be dropped.

`Discipline` is what is asked of the world: whatever happens, an item that can be
started still can, a started one stays started, and a result stays what it is.
`Stream.Ordered` then holds in every run (`run_ordered`): what was taken, what is
started and what is left are the items in their order, each once.
-/

namespace Buffered

variable {S I H B E W : Type}

/-- How an item is started, and what has become of it. -/
structure Source (S I H B E : Type) where
  start : S → I → H × S
  result : S → H → Option (Except E B)

/-- How a stream ended. -/
inductive Ending (E : Type)
  | complete
  | failed (e : E)
  | dropped
  deriving DecidableEq, Repr

/-- A stream between two polls: the items not started, those started and not taken
(oldest first), and what was taken. -/
structure Stream (I H B E : Type) where
  todo : List I
  window : List (I × H)
  sent : List (I × B)
  ending : Option (Ending E)

def Stream.new (items : List I) : Stream I H B E where
  todo := items
  window := []
  sent := []
  ending := none

namespace Source

variable (src : Source S I H B E) (limit : ℕ)

/-- Start items while the window has room. -/
def fill : List I → List (I × H) → S → (List I × List (I × H)) × S
  | [], window, s => (([], window), s)
  | i :: todo, window, s =>
      if window.length < limit then
        fill todo (window ++ [(i, (src.start s i).1)]) (src.start s i).2
      else ((i :: todo, window), s)

/-- Take the oldest item, if it has a result. -/
def take (s : S) (stream : Stream I H B E) : Stream I H B E :=
  match stream.window with
  | [] =>
      if stream.todo.isEmpty then { stream with ending := some .complete } else stream
  | (i, h) :: rest =>
      match src.result s h with
      | none => stream
      | some (.ok b) => { stream with window := rest, sent := stream.sent ++ [(i, b)] }
      | some (.error e) => { stream with ending := some (.failed e) }

/-- One poll. -/
def poll (stream : Stream I H B E) (s : S) : Stream I H B E × S :=
  let filled := src.fill limit stream.todo stream.window s
  (src.take filled.2 { stream with todo := filled.1.1, window := filled.1.2 }, filled.2)

end Source

/-- What can happen next. -/
inductive Move (W : Type)
  | poll
  | drop
  | world (w : W)

/-- One move.  A stream that has ended is not polled again. -/
def Source.step (src : Source S I H B E) (limit : ℕ) (world : S → W → Option S)
    (stream : Stream I H B E) (s : S) : Move W → Option (Stream I H B E × S)
  | .poll => if stream.ending.isNone then some (src.poll limit stream s) else none
  | .drop =>
      if stream.ending.isNone then some ({ stream with ending := some .dropped }, s) else none
  | .world w => (world s w).map fun s' => (stream, s')

def Source.run (src : Source S I H B E) (limit : ℕ) (world : S → W → Option S) :
    Stream I H B E → S → List (Move W) → Option (Stream I H B E × S)
  | stream, s, [] => some (stream, s)
  | stream, s, move :: rest =>
      (src.step limit world stream s move).bind fun next => src.run limit world next.1 next.2 rest

/-! ## What is asked of the world -/

/-- The state moves on: an item that can be started is, or the world moves. -/
def Source.Goes (src : Source S I H B E) (world : S → W → Option S) (Ready : S → I → Prop)
    (s s' : S) : Prop :=
  (∃ i, Ready s i ∧ s' = (src.start s i).2) ∨ ∃ w, world s w = some s'

/-- Facts that a source establishes and that nothing takes back. -/
structure Discipline (src : Source S I H B E) (world : S → W → Option S) where
  /-- what holds of the state -/
  Sound : S → Prop
  /-- the item can be started -/
  Ready : S → I → Prop
  /-- this is the handle of the item -/
  Started : S → I → H → Prop
  started : ∀ {s i}, Ready s i → Started (src.start s i).2 i (src.start s i).1
  sound_goes : ∀ {s s'}, src.Goes world Ready s s' → Sound s → Sound s'
  ready_goes : ∀ {s s' i}, src.Goes world Ready s s' → Ready s i → Ready s' i
  started_goes : ∀ {s s' i h}, src.Goes world Ready s s' → Started s i h → Started s' i h
  result_goes : ∀ {s s' h r}, src.Goes world Ready s s' → src.result s h = some r →
    src.result s' h = some r

section Ordered

variable {src : Source S I H B E} {world : S → W → Option S} (D : Discipline src world)
  {limit : ℕ} {items : List I} {stream stream' : Stream I H B E} {s s' : S}

/-- The invariant of a stream over `items`. -/
structure Stream.Ordered (limit : ℕ) (items : List I) (stream : Stream I H B E) (s : S) :
    Prop where
  sound : D.Sound s
  /-- each item once, in its order -/
  items : stream.sent.map Prod.fst ++ stream.window.map Prod.fst ++ stream.todo = items
  room : stream.window.length ≤ limit
  ready : ∀ i ∈ stream.todo, D.Ready s i
  running : ∀ w ∈ stream.window, D.Started s w.1 w.2
  taken : ∀ t ∈ stream.sent, ∃ h, D.Started s t.1 h ∧ src.result s h = some (.ok t.2)
  complete : stream.ending = some .complete → stream.window = [] ∧ stream.todo = []
  /-- it is the oldest item's failure that ends the stream -/
  failed : ∀ e, stream.ending = some (.failed e) →
    ∃ i h rest, stream.window = (i, h) :: rest ∧ src.result s h = some (.error e)

theorem Stream.ordered_new (hsound : D.Sound s) (hready : ∀ i ∈ items, D.Ready s i) :
    (Stream.new items).Ordered D limit items s where
  sound := hsound
  items := rfl
  room := Nat.zero_le limit
  ready := hready
  running := fun _ h => by cases h
  taken := fun _ h => by cases h
  complete := fun h => by cases h
  failed := fun _ h => by cases h

variable {D}

namespace Stream.Ordered

/-- The world moves on and the stream is as it was. -/
theorem goes (h : stream.Ordered D limit items s) (hgoes : src.Goes world D.Ready s s') :
    stream.Ordered D limit items s' where
  sound := D.sound_goes hgoes h.sound
  items := h.items
  room := h.room
  ready := fun i hi => D.ready_goes hgoes (h.ready i hi)
  running := fun w hw => D.started_goes hgoes (h.running w hw)
  taken := by
    intro t ht
    obtain ⟨handle, hstarted, hresult⟩ := h.taken t ht
    exact ⟨handle, D.started_goes hgoes hstarted, D.result_goes hgoes hresult⟩
  complete := h.complete
  failed := by
    intro e he
    obtain ⟨i, handle, rest, hwindow, hresult⟩ := h.failed e he
    exact ⟨i, handle, rest, hwindow, D.result_goes hgoes hresult⟩

/-- Starting items while there is room. -/
theorem fill {todo : List I} {window : List (I × H)}
    (h : ({ stream with todo := todo, window := window } : Stream I H B E).Ordered D limit items s)
    (hopen : stream.ending = none) :
    ({ stream with
        todo := (src.fill limit todo window s).1.1
        window := (src.fill limit todo window s).1.2 } : Stream I H B E).Ordered D limit items
      (src.fill limit todo window s).2 := by
  induction todo generalizing window s with
  | nil => exact h
  | cons i todo ih =>
      rw [Source.fill]
      split
      · next hroom =>
          have hready : D.Ready s i := h.ready i List.mem_cons_self
          have hgoes : src.Goes world D.Ready s (src.start s i).2 := .inl ⟨i, hready, rfl⟩
          have hlater := h.goes hgoes
          refine ih
            { sound := hlater.sound
              items := by simpa using h.items
              room := by simpa using hroom
              ready := fun j hj => hlater.ready j (List.mem_cons_of_mem i hj)
              running := ?_
              taken := hlater.taken
              complete := fun hend => by simp [hopen] at hend
              failed := fun e hend => by simp [hopen] at hend }
          intro w hw
          rcases List.mem_append.mp hw with hold | hnew
          · exact hlater.running w hold
          · obtain rfl := List.mem_singleton.mp hnew
            exact D.started hready
      · exact h

/-- Taking the oldest item. -/
theorem take (h : stream.Ordered D limit items s) (hopen : stream.ending = none) :
    (src.take s stream).Ordered D limit items s := by
  unfold Source.take
  split
  · next hwindow =>
      split
      · next htodo =>
          exact { h with
            complete := fun _ => ⟨hwindow, List.isEmpty_iff.mp htodo⟩
            failed := fun e hend => by cases hend }
      · exact h
  · next i handle rest hwindow =>
      have hitems := h.items
      have hroom := h.room
      have hrunning := h.running
      rw [hwindow] at hitems hroom hrunning
      split
      · exact h
      · next b hresult =>
          exact
            { sound := h.sound
              items := by simpa using hitems
              room := (Nat.le_succ _).trans hroom
              ready := h.ready
              running := fun w hw => hrunning w (List.mem_cons_of_mem _ hw)
              taken := by
                intro t ht
                rcases List.mem_append.mp ht with hold | hnew
                · exact h.taken t hold
                · obtain rfl := List.mem_singleton.mp hnew
                  exact ⟨handle, hrunning _ List.mem_cons_self, hresult⟩
              complete := fun hend => by simp [hopen] at hend
              failed := fun e hend => by simp [hopen] at hend }
      · next e hresult =>
          exact { h with
            complete := fun hend => by cases hend
            failed := by
              rintro e' hend
              cases hend
              exact ⟨i, handle, rest, hwindow, hresult⟩ }

/-- Where each item has one result, what was taken is the start of the results. -/
theorem map_sent {f : I → B} (h : stream.Ordered D limit items s)
    (hf : ∀ t ∈ stream.sent, t.2 = f t.1) :
    items.map f =
      stream.sent.map Prod.snd ++ (stream.window.map Prod.fst ++ stream.todo).map f := by
  have hsent : stream.sent.map Prod.snd = (stream.sent.map Prod.fst).map f := by
    rw [List.map_map]
    exact List.map_congr_left hf
  rw [← h.items, hsent, List.append_assoc, List.map_append]

theorem poll (h : stream.Ordered D limit items s) (hopen : stream.ending = none) :
    (src.poll limit stream s).1.Ordered D limit items (src.poll limit stream s).2 :=
  (fill h hopen).take hopen

theorem step {move : Move W} (h : stream.Ordered D limit items s)
    (hstep : src.step limit world stream s move = some (stream', s')) :
    stream'.Ordered D limit items s' := by
  cases move with
  | poll =>
      simp only [Source.step] at hstep
      split at hstep
      · next hnone =>
          cases hstep
          exact h.poll (Option.isNone_iff_eq_none.mp hnone)
      · cases hstep
  | drop =>
      simp only [Source.step] at hstep
      split at hstep
      · cases hstep
        exact { h with
          complete := fun hend => by cases hend
          failed := fun e hend => by cases hend }
      · cases hstep
  | world w =>
      simp only [Source.step, Option.map_eq_some_iff] at hstep
      obtain ⟨s'', hworld, heq⟩ := hstep
      cases heq
      exact h.goes (.inr ⟨w, hworld⟩)

end Stream.Ordered

/-- **Every run takes the items in their order**, and has at most `limit` of them started
and not taken. -/
theorem run_ordered {moves : List (Move W)} (h : stream.Ordered D limit items s)
    (hrun : src.run limit world stream s moves = some (stream', s')) :
    stream'.Ordered D limit items s' := by
  induction moves generalizing stream s with
  | nil =>
      cases hrun
      exact h
  | cons move rest ih =>
      rw [Source.run, Option.bind_eq_some_iff] at hrun
      obtain ⟨⟨next, t⟩, hstep, hrest⟩ := hrun
      exact ih (h.step hstep) hrest

end Ordered

end Buffered
