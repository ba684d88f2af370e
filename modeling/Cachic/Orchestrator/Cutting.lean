import Cachic.Orchestrator.Programs

/-!
# Cutting a stream

`run_fill` keeps a buffer, appends each chunk of the stream to it and cuts whole slices off its
front, so what it does from one moment to the next depends on how the body was split.  What it
does in all does not: `cutStream_eq` says that it stores the tiles of the body one after another
and publishes each, all of them when the stream has ended and the whole ones of what had arrived
when it has failed.  The loop invariant is that the buffer and the chunks to come are the rest of
the body from the next index on.

The equation is one between programs, so it holds wherever the fill runs.  It needs the index to
stay in its 32 bits, as it does for a body of at most `2 ^ 32 - 1` slices.
-/

namespace Cachic

open Range Tiling ActionLang ActionLang.Prog

variable {cfg : Config} {plan : Plan} {fill : FillId} {body : List UInt8}

/-- Store so many tiles of a body from `index` on, and publish each. -/
def storeTiles (cfg : Config) (plan : Plan) (fill : FillId) (body : List UInt8) :
    ℕ → ℕ → Task Unit
  | 0, _ => return ()
  | count + 1, index => do
      let value : SliceValue :=
        { header := headerFor plan.info cfg.sliceSize, payload := tile body cfg.sliceSize index }
      let _ ← ask (.storeInsert (plan.sliceKey index) value .fill)
      let _ ← ask (.fillPublish fill (.ready (index + 1)))
      storeTiles cfg plan fill body count (index + 1)

theorem storeTiles_add (first second index : ℕ) :
    storeTiles cfg plan fill body (first + second) index =
      (storeTiles cfg plan fill body first index >>= fun _ =>
        storeTiles cfg plan fill body second (index + first)) := by
  induction first generalizing index with
  | zero => rw [Nat.zero_add, Nat.add_zero]; rfl
  | succ first ih =>
      rw [Nat.succ_add, storeTiles, storeTiles]
      simp only [ih (index + 1), Nat.add_assoc, Nat.add_comm 1 first]
      rfl

/-- Cutting slices off a buffer that the rest of the body begins with. -/
theorem cutSlices_eq {count index : ℕ} {buffer rest : List UInt8}
    (hrest : body.drop (index * cfg.sliceSize) = buffer ++ rest)
    (hcount : count * cfg.sliceSize ≤ buffer.length) (hword : index + count < 2 ^ 32) :
    cutSlices plan fill cfg.sliceSize count buffer index =
      (storeTiles cfg plan fill body count index >>= fun _ =>
        return (buffer.drop (count * cfg.sliceSize), index + count)) := by
  induction count generalizing buffer index with
  | zero =>
      rw [zero_mul, List.drop_zero, Nat.add_zero]
      rfl
  | succ count ih =>
      rw [add_mul, one_mul] at hcount
      have htile : buffer.take cfg.sliceSize = tile body cfg.sliceSize index := by
        rw [tile_eq_take_drop, hrest, List.take_append_of_le_length (by omega)]
      have hdrop : body.drop ((index + 1) * cfg.sliceSize) =
          buffer.drop cfg.sliceSize ++ rest := by
        rw [add_mul, one_mul, ← List.drop_drop, hrest, List.drop_append_of_le_length (by omega)]
      have hmore := ih hdrop (by rw [List.length_drop]; omega) (by omega)
      rw [List.drop_drop, Nat.add_assoc, Nat.add_comm 1 count] at hmore
      rw [cutSlices, storeTiles, htile, wrapAdd_of_lt (by omega), add_mul, one_mul,
        Nat.add_comm _ cfg.sliceSize]
      simp only [hmore]
      rfl

/-- The stream, chunk by chunk. -/
theorem fillChunks_eq (haddressable : body.length ≤ (2 ^ 32 - 1) * cfg.sliceSize)
    {chunks : List (List UInt8)} {buffer : List UInt8} {index : ℕ}
    (hrest : body.drop (index * cfg.sliceSize) = buffer ++ chunks.flatten)
    (hbuffer : buffer.length < cfg.sliceSize) (hindex : index * cfg.sliceSize ≤ body.length) :
    fillChunks plan fill cfg.sliceSize chunks buffer index =
      (storeTiles cfg plan fill body (body.length / cfg.sliceSize - index) index >>= fun _ =>
        return (body.drop (body.length / cfg.sliceSize * cfg.sliceSize),
          body.length / cfg.sliceSize)) := by
  have hpos := cfg.sliceSize_pos
  induction chunks generalizing buffer index with
  | nil =>
      rw [List.flatten_nil, List.append_nil] at hrest
      have hlen := congrArg List.length hrest
      rw [List.length_drop] at hlen
      have hcount : body.length / cfg.sliceSize = index :=
        Nat.div_eq_of_lt_le hindex (by rw [add_mul]; omega)
      rw [hcount, hrest, Nat.sub_self]
      rfl
  | cons chunk chunks ih =>
      rw [List.flatten_cons, ← List.append_assoc] at hrest
      have hcut := Nat.div_mul_le_self (buffer ++ chunk).length cfg.sliceSize
      have hlen := congrArg List.length hrest
      rw [List.length_drop, List.length_append] at hlen
      -- the slices cut so far lie in the body, so their count is a 32-bit word
      have hinside : (index + (buffer ++ chunk).length / cfg.sliceSize) * cfg.sliceSize ≤
          body.length := by
        rw [add_mul]
        omega
      have hcount : index + (buffer ++ chunk).length / cfg.sliceSize ≤
          body.length / cfg.sliceSize := (Nat.le_div_iff_mul_le hpos).mpr hinside
      have hword : index + (buffer ++ chunk).length / cfg.sliceSize < 2 ^ 32 := by
        have := Nat.le_of_mul_le_mul_right (hinside.trans haddressable) hpos
        omega
      have hrest₁ : body.drop ((index + (buffer ++ chunk).length / cfg.sliceSize) *
          cfg.sliceSize) = (buffer ++ chunk).drop ((buffer ++ chunk).length / cfg.sliceSize *
            cfg.sliceSize) ++ chunks.flatten := by
        rw [add_mul, ← List.drop_drop, hrest, List.drop_append_of_le_length hcut]
      have hbuffer₁ : ((buffer ++ chunk).drop ((buffer ++ chunk).length / cfg.sliceSize *
          cfg.sliceSize)).length < cfg.sliceSize := by
        have := Nat.lt_div_mul_add hpos (a := (buffer ++ chunk).length)
        rw [List.length_drop]
        omega
      have hsplit : body.length / cfg.sliceSize - index =
          (buffer ++ chunk).length / cfg.sliceSize +
            (body.length / cfg.sliceSize - (index + (buffer ++ chunk).length / cfg.sliceSize)) := by
        rw [Nat.sub_add_eq, Nat.add_sub_of_le (Nat.le_sub_of_add_le' hcount)]
      rw [fillChunks, cutSlices_eq hrest hcut hword, bind_assoc]
      simp only [pure_eq_ret, ret_bind]
      rw [ih hrest₁ hbuffer₁ hinside, hsplit, storeTiles_add, bind_assoc]
      rfl

/-! ## A whole fill -/

/-- What a fill does with the stream once it is open. -/
def cutStream (cfg : Config) (plan : Plan) (url : String) (fill : FillId)
    (chunks : List (List UInt8)) (failure : Option TransportError) :
    Task (Except OrchestratorError ℕ) := do
  let (buffer, index) ← fillChunks plan fill cfg.sliceSize chunks [] 0
  match failure with
  | some source => return .error (.upstream (.request url source))
  | none =>
      if buffer = [] then return .ok index
      else
        let value : SliceValue :=
          { header := headerFor plan.info cfg.sliceSize, payload := buffer }
        let _ ← ask (.storeInsert (plan.sliceKey index) value .fill)
        let next := wrapAdd 32 index 1
        let _ ← ask (.fillPublish fill (.ready next))
        return .ok next

theorem runFill_eq_bind (cfg : Config) (plan : Plan) (url : String) (headers : HeaderMap)
    (fill : FillId) :
    runFill cfg plan url headers fill =
      (fetchStream (.fill plan.object (headerFor plan.info cfg.sliceSize)) url headers >>=
        fun answer => match answer with
          | .error e => return .error (.upstream e)
          | .ok (chunks, failure) => cutStream cfg plan url fill chunks failure) := rfl

/-- The number of slices stored of a body, or of what came before a failure. -/
def storedCount (cfg : Config) (body : List UInt8) : Option TransportError → ℕ
  | none => (body.length + cfg.sliceSize - 1) / cfg.sliceSize
  | some _ => body.length / cfg.sliceSize

theorem length_le_storedCount (cfg : Config) (body : List UInt8) :
    body.length ≤ storedCount cfg body none * cfg.sliceSize := by
  have hpos := cfg.sliceSize_pos
  have := Nat.lt_div_mul_add hpos (a := body.length + cfg.sliceSize - 1)
  rw [storedCount]
  omega

/-- What a fill returns. -/
def cutResult (cfg : Config) (url : String) (body : List UInt8) :
    Option TransportError → Except OrchestratorError ℕ
  | none => .ok (storedCount cfg body none)
  | some source => .error (.upstream (.request url source))

/-- **A fill depends on the body alone**, not on how the stream was split. -/
theorem cutStream_eq {chunks : List (List UInt8)}
    (haddressable : chunks.flatten.length ≤ (2 ^ 32 - 1) * cfg.sliceSize) (url : String)
    (failure : Option TransportError) :
    cutStream cfg plan url fill chunks failure =
      (storeTiles cfg plan fill chunks.flatten (storedCount cfg chunks.flatten failure) 0 >>=
        fun _ => return cutResult cfg url chunks.flatten failure) := by
  have hpos := cfg.sliceSize_pos
  have hall : chunks.flatten.drop (0 * cfg.sliceSize) = [] ++ chunks.flatten := by simp
  rw [cutStream, fillChunks_eq haddressable hall hpos (by simp), bind_assoc]
  simp only [pure_eq_ret, ret_bind, Nat.sub_zero]
  cases failure with
  | some source => rfl
  | none =>
      have hfloor := Nat.div_mul_le_self chunks.flatten.length cfg.sliceSize
      have hceil := Nat.lt_div_mul_add hpos (a := chunks.flatten.length)
      by_cases hempty : chunks.flatten.drop
          (chunks.flatten.length / cfg.sliceSize * cfg.sliceSize) = []
      · have hend := List.drop_eq_nil_iff.mp hempty
        have hcount : storedCount cfg chunks.flatten none =
            chunks.flatten.length / cfg.sliceSize :=
          Nat.div_eq_of_lt_le (by omega) (by rw [add_mul]; omega)
        simp only [if_pos hempty, hcount, cutResult]
      · -- the body ends inside a slice
        rw [List.drop_eq_nil_iff, not_le] at hempty
        have hcount : storedCount cfg chunks.flatten none =
            chunks.flatten.length / cfg.sliceSize + 1 :=
          Nat.div_eq_of_lt_le (by rw [add_mul]; omega) (by rw [add_mul, add_mul]; omega)
        have hword : chunks.flatten.length / cfg.sliceSize + 1 < 2 ^ 32 := by
          have := Nat.lt_of_mul_lt_mul_right (lt_of_lt_of_le hempty haddressable)
          omega
        simp only [if_neg (List.drop_eq_nil_iff.not.mpr (not_le.mpr hempty)), hcount, cutResult,
          storeTiles_add, bind_assoc, Nat.zero_add]
        rw [← tile_last hpos, wrapAdd_of_lt hword]
        rfl

/-! ## What a fill is seen to do -/

/-- A slice is stored and then published. -/
def landing (cfg : Config) (plan : Plan) (fill : FillId) (index : ℕ) (piece : List UInt8) :
    List (Event Act Act.Res) :=
  [⟨.storeInsert (plan.sliceKey index)
      { header := headerFor plan.info cfg.sliceSize, payload := piece } .fill, ()⟩,
    ⟨.fillPublish fill (.ready (index + 1)), ()⟩]

theorem runs_storeTiles {count index : ℕ} {s s' : Shared} {trace : List (Event Act Act.Res)}
    {value : Unit} (h : Runs exec (storeTiles cfg plan fill body count index) s trace value s') :
    trace = (List.range' index count).flatMap fun i =>
      landing cfg plan fill i (tile body cfg.sliceSize i) := by
  induction count generalizing index s trace with
  | zero => exact (runs_ret_iff.mp h).1
  | succ count ih =>
      obtain ⟨_, _, s₁, rest₁, -, rfl, h₁⟩ := runs_perform_bind_iff.mp h
      obtain ⟨_, _, s₂, rest₂, -, rfl, h₂⟩ := runs_perform_bind_iff.mp h₁
      rw [ih h₂, List.range'_succ, List.flatMap_cons]
      rfl

theorem exists_runs_storeTiles (count index : ℕ) (s : Shared) :
    ∃ trace s', Runs exec (storeTiles cfg plan fill body count index) s trace () s' := by
  induction count generalizing index s with
  | zero => exact ⟨[], s, .ret () s⟩
  | succ count ih =>
      obtain ⟨trace, s', hrest⟩ := ih (index + 1) _
      exact ⟨_, s', runs_perform_bind_iff.mpr ⟨.go, (), _, _, rfl, rfl,
        runs_perform_bind_iff.mpr ⟨.go, (), _, _, rfl, rfl, hrest⟩⟩⟩

end Cachic
