import Cachic.Sni.ClientHello

/-!
# Waiting for the ClientHello

`splice` reads from the client until it can tell where to connect to: a read of at most 1024
bytes is appended to a buffer, and then the buffer is looked at.  How the client's bytes fall
into reads is up to the network.

The size of the buffer is looked at before the record in it.  So the outcome does not depend
on the reads as long as no read can both complete the record and pass the ceiling
(`hello_segmentation`); where one can, it does (`exists_two_outcomes`).
-/

namespace Cachic

open ByteCodec ClientHello

/-- The ends of the loop without a host. -/
inductive SniError
  | notTls
  | noServerName
  | helloTooLarge (limit : ℕ)
  deriving DecidableEq, Repr

/-- What a buffer that holds the record comes to. -/
def parsed (buffer : List UInt8) : Except SniError (List Char) :=
  match serverName buffer with
  | some host => .ok host
  | none => .error .noServerName

theorem parsed_ne_helloTooLarge (buffer : List UInt8) (limit : ℕ) :
    parsed buffer ≠ .error (.helloTooLarge limit) := by
  unfold parsed
  split <;> simp

/-- The checks after a read; `none` is another round. -/
def afterRead (buffer : List UInt8) : Option (Except SniError (List Char)) :=
  if !looksLikeTls buffer then some (.error .notTls)
  else if maxClientHello < buffer.length then some (.error (.helloTooLarge maxClientHello))
  else
    match recordLength buffer with
    | some needed => if needed ≤ buffer.length then some (parsed buffer) else none
    | none => none

/-- The loop over the reads to come; a read of nothing is the end of the stream.  It has not
ended when the reads have. -/
def helloLoop : List UInt8 → List (List UInt8) → Option (Except SniError (List Char))
  | _, [] => none
  | buffer, chunk :: reads =>
      if chunk = [] then some (.error .notTls)
      else
        match afterRead (buffer ++ chunk) with
        | some outcome => some outcome
        | none => helloLoop (buffer ++ chunk) reads

/-- Successive reads of a stream, as far as they go. -/
structure Cut (stream : List UInt8) (reads : List (List UInt8)) : Prop where
  sizes : ∀ chunk ∈ reads, 1 ≤ chunk.length ∧ chunk.length ≤ 1024
  here : reads.flatten <+: stream

/-! ## One look at the buffer -/

section Looks

variable {buffer stream : List UInt8} {needed : ℕ}

theorem looksLikeTls_of_front (h : buffer <+: stream) (hne : buffer ≠ []) :
    looksLikeTls stream = looksLikeTls buffer := by
  obtain ⟨rest, rfl⟩ := h
  cases buffer with
  | nil => exact absurd rfl hne
  | cons first buffer => rfl

theorem recordLength_append (h : recordLength buffer = some needed) (rest : List UInt8) :
    recordLength (buffer ++ rest) = some needed := by
  match buffer, h with
  | _ :: _ :: _ :: _ :: _ :: _, h => exact h

theorem le_of_recordLength (h : recordLength buffer = some needed) :
    5 ≤ needed ∧ 5 ≤ buffer.length := by
  match buffer, h with
  | _ :: _ :: _ :: _ :: _ :: _, h =>
      cases h
      exact ⟨Nat.le_add_left _ _, by simp⟩

theorem recordLength_of_le (h : 5 ≤ buffer.length) :
    ∃ needed, recordLength buffer = some needed := by
  match buffer, h with
  | _ :: _ :: _ :: _ :: _ :: _, _ => exact ⟨_, rfl⟩

/-- The header in the buffer is that of the stream. -/
theorem recordLength_of_front (h : buffer <+: stream) (hlen : 5 ≤ buffer.length) :
    recordLength buffer = recordLength stream := by
  obtain ⟨rest, rfl⟩ := h
  obtain ⟨needed, hneeded⟩ := recordLength_of_le hlen
  rw [hneeded, recordLength_append hneeded]

/-- A record is parsed as it is in the stream. -/
theorem parsed_of_front (h : buffer <+: stream) (hneeded : recordLength stream = some needed)
    (hle : needed ≤ buffer.length) : parsed buffer = parsed (stream.take needed) := by
  have hrecord : stream.take needed = buffer.take needed := by
    obtain ⟨rest, rfl⟩ := h
    rw [List.take_append_of_le_length hle]
  have hfive := le_of_recordLength hneeded
  have hlen : (buffer.take needed).length = needed := List.length_take_of_le hle
  have htake : recordLength (buffer.take needed) = some needed := by
    rw [← hneeded]
    exact recordLength_of_front ((List.take_prefix _ _).trans h) (by omega)
  have hname : serverName buffer = serverName (buffer.take needed) := by
    conv_lhs => rw [← List.take_append_drop needed buffer]
    exact serverName_append htake hlen.ge _
  rw [parsed, parsed, hrecord, hname]

/-- The ways a buffer is enough. -/
inductive Decides (buffer : List UInt8) : Except SniError (List Char) → Prop
  | notTls (hfirst : looksLikeTls buffer = false) : Decides buffer (.error .notTls)
  | tooLarge (htls : looksLikeTls buffer = true) (hlarge : maxClientHello < buffer.length) :
      Decides buffer (.error (.helloTooLarge maxClientHello))
  | complete {needed : ℕ} (htls : looksLikeTls buffer = true)
      (hsmall : buffer.length ≤ maxClientHello) (hneeded : recordLength buffer = some needed)
      (hle : needed ≤ buffer.length) : Decides buffer (parsed buffer)

theorem decides_of_afterRead {outcome : Except SniError (List Char)}
    (h : afterRead buffer = some outcome) : Decides buffer outcome := by
  unfold afterRead at h
  split at h
  · next hfirst =>
      cases h
      exact .notTls (by simpa using hfirst)
  · next htls =>
      have htls : looksLikeTls buffer = true := by simpa using htls
      split at h
      · next hlarge =>
          cases h
          exact .tooLarge htls hlarge
      · next hsmall =>
          split at h
          · next needed hneeded =>
              split at h
              · next hle =>
                  cases h
                  exact .complete htls (not_lt.mp hsmall) hneeded hle
              · cases h
          · cases h

theorem afterRead_of_complete (htls : looksLikeTls buffer = true)
    (hsmall : buffer.length ≤ maxClientHello) (hneeded : recordLength buffer = some needed)
    (hle : needed ≤ buffer.length) : afterRead buffer = some (parsed buffer) := by
  rw [afterRead, htls, if_neg (by simp), if_neg (not_lt.mpr hsmall), hneeded]
  exact if_pos hle

theorem afterRead_of_short (htls : looksLikeTls buffer = true)
    (hsmall : buffer.length ≤ maxClientHello)
    (hshort : ∀ needed, recordLength buffer = some needed → buffer.length < needed) :
    afterRead buffer = none := by
  rw [afterRead, htls, if_neg (by simp), if_neg (not_lt.mpr hsmall)]
  split
  · next needed hneeded => exact if_neg (not_le.mpr (hshort needed hneeded))
  · rfl

theorem afterRead_of_large (htls : looksLikeTls buffer = true)
    (hlarge : maxClientHello < buffer.length) :
    afterRead buffer = some (.error (.helloTooLarge maxClientHello)) := by
  rw [afterRead, htls, if_neg (by simp), if_pos hlarge]

/-- A buffer that is not enough does not hold the record. -/
theorem lt_of_afterRead_eq_none (h : afterRead buffer = none)
    (hneeded : recordLength buffer = some needed) : buffer.length < needed := by
  unfold afterRead at h
  split at h
  · cases h
  · split at h
    · cases h
    · rw [hneeded] at h
      exact not_le.mp fun hle => by simp [hle] at h

end Looks

/-! ## The loop -/

/-- Where the loop ended: at the first buffer that was enough. -/
structure DecidedAt (stream before chunk : List UInt8) (outcome : Except SniError (List Char)) :
    Prop where
  here : before ++ chunk <+: stream
  size : 1 ≤ chunk.length ∧ chunk.length ≤ 1024
  decided : afterRead (before ++ chunk) = some outcome
  undecided : before = [] ∨ afterRead before = none

theorem decided_of_helloLoop {stream buffer : List UInt8} {reads : List (List UInt8)}
    {outcome : Except SniError (List Char)} (hhere : buffer ++ reads.flatten <+: stream)
    (hsizes : ∀ chunk ∈ reads, 1 ≤ chunk.length ∧ chunk.length ≤ 1024)
    (hbuffer : buffer = [] ∨ afterRead buffer = none)
    (h : helloLoop buffer reads = some outcome) :
    ∃ before chunk, DecidedAt stream before chunk outcome := by
  induction reads generalizing buffer with
  | nil => cases h
  | cons chunk reads ih =>
      have hsize := hsizes chunk List.mem_cons_self
      rw [List.flatten_cons, ← List.append_assoc] at hhere
      have hchunk : chunk ≠ [] := List.length_pos_iff.mp hsize.1
      rw [helloLoop, if_neg hchunk] at h
      split at h
      · next decided hdecided =>
          cases h
          exact ⟨buffer, chunk, (List.prefix_append _ _).trans hhere, hsize, hdecided, hbuffer⟩
      · next hnone =>
          exact ih hhere (fun c hc => hsizes c (List.mem_cons_of_mem chunk hc)) (.inr hnone) h

/-- No read can both complete the record and pass the ceiling: the record is short enough, or
the stream is. -/
def Roomy (stream : List UInt8) : Prop :=
  ∀ needed, looksLikeTls stream = true → recordLength stream = some needed →
    needed ≤ maxClientHello →
    needed + 1023 ≤ maxClientHello ∨ stream.length ≤ maxClientHello

/-- The outcome of a stream that is long enough. -/
def outcomeOf (stream : List UInt8) : Except SniError (List Char) :=
  if !looksLikeTls stream then .error .notTls
  else
    match recordLength stream with
    | some needed =>
        if needed ≤ maxClientHello then parsed (stream.take needed)
        else .error (.helloTooLarge maxClientHello)
    | none => .error (.helloTooLarge maxClientHello)

/-- Where there is room, a read that passes the ceiling is one of a record that does not fit:
one that does would have been complete before. -/
theorem DecidedAt.past_ceiling {stream before chunk : List UInt8}
    {outcome : Except SniError (List Char)} (h : DecidedAt stream before chunk outcome)
    (hroomy : Roomy stream) (htls : looksLikeTls stream = true)
    (hlarge : maxClientHello < (before ++ chunk).length) :
    ∃ needed, recordLength stream = some needed ∧ maxClientHello < needed := by
  have hlong : maxClientHello < stream.length := lt_of_lt_of_le hlarge h.here.length_le
  obtain ⟨needed, hneeded⟩ : ∃ needed, recordLength stream = some needed :=
    recordLength_of_le (le_trans (by decide) hlong.le)
  refine ⟨needed, hneeded, not_le.mp fun hle => ?_⟩
  have hroom := (hroomy needed htls hneeded hle).resolve_right (not_le.mpr hlong)
  have hfive := le_of_recordLength hneeded
  have hsize := h.size.2
  rw [List.length_append] at hlarge
  have hbefore : needed ≤ before.length := by omega
  have hfront := (List.prefix_append before chunk).trans h.here
  have hlength := (recordLength_of_front hfront (by omega)).trans hneeded
  rcases h.undecided with rfl | hnone
  · rw [List.length_nil] at hbefore
    omega
  · exact absurd (lt_of_afterRead_eq_none hnone hlength) (not_lt.mpr hbefore)

theorem DecidedAt.eq_outcomeOf {stream before chunk : List UInt8}
    {outcome : Except SniError (List Char)} (h : DecidedAt stream before chunk outcome)
    (hroomy : Roomy stream) : outcome = outcomeOf stream := by
  have hne : before ++ chunk ≠ [] :=
    List.append_ne_nil_of_right_ne_nil _ (List.length_pos_iff.mp h.size.1)
  have hfirst := looksLikeTls_of_front h.here hne
  unfold outcomeOf
  cases decides_of_afterRead h.decided with
  | notTls hnot => simp only [hfirst, hnot, Bool.not_false, if_true]
  | tooLarge htls hlarge =>
      obtain ⟨needed, hneeded, hpast⟩ := h.past_ceiling hroomy (hfirst.trans htls) hlarge
      simp only [hfirst, htls, hneeded, Bool.not_true, Bool.false_eq_true, if_false,
        if_neg (not_le.mpr hpast)]
  | @complete needed htls hsmall hneeded hle =>
      have hstream : recordLength stream = some needed :=
        (recordLength_of_front h.here (le_of_recordLength hneeded).2) ▸ hneeded
      simp only [hfirst, htls, hstream, Bool.not_true, Bool.false_eq_true, if_false,
        if_pos (le_trans hle hsmall)]
      exact parsed_of_front h.here hstream hle

/-- **The reads do not matter** where no read can complete the record and pass the ceiling at
once: whenever the loop ends, it ends as the stream says, and a record that fits is parsed. -/
theorem hello_segmentation {stream : List UInt8} {reads reads' : List (List UInt8)}
    {outcome outcome' : Except SniError (List Char)} (hcut : Cut stream reads)
    (hcut' : Cut stream reads') (hroomy : Roomy stream)
    (hloop : helloLoop [] reads = some outcome) (hloop' : helloLoop [] reads' = some outcome') :
    outcome = outcome' ∧
      ∀ needed, looksLikeTls stream = true → recordLength stream = some needed →
        needed ≤ maxClientHello → outcome = parsed (stream.take needed) := by
  obtain ⟨before, chunk, hat⟩ :=
    decided_of_helloLoop hcut.here hcut.sizes (.inl rfl) hloop
  obtain ⟨before', chunk', hat'⟩ :=
    decided_of_helloLoop hcut'.here hcut'.sizes (.inl rfl) hloop'
  have houtcome := hat.eq_outcomeOf hroomy
  refine ⟨houtcome.trans (hat'.eq_outcomeOf hroomy).symm, fun needed htls hneeded hmax => ?_⟩
  rw [houtcome, outcomeOf, htls, hneeded]
  exact if_pos hmax

/-! ## Where the reads matter -/

section Reads

variable {stream : List UInt8} {needed : ℕ}

/-- Reads of one byte each, as long as none of them is enough. -/
theorem helloLoop_bytes {buffer bytes : List UInt8} (rest : List (List UInt8))
    (h : ∀ front, front <+: bytes → front ≠ [] → afterRead (buffer ++ front) = none) :
    helloLoop buffer (bytes.map (fun b => [b]) ++ rest) = helloLoop (buffer ++ bytes) rest := by
  induction bytes generalizing buffer with
  | nil => rw [List.map_nil, List.nil_append, List.append_nil]
  | cons b bytes ih =>
      have hone : afterRead (buffer ++ [b]) = none :=
        h [b] ⟨bytes, rfl⟩ (List.cons_ne_nil b [])
      have hmore : ∀ front, front <+: bytes → front ≠ [] →
          afterRead ((buffer ++ [b]) ++ front) = none := by
        intro front hfront _
        rw [List.append_assoc]
        exact h (b :: front) ((List.prefix_cons_inj b).mpr hfront) (List.cons_ne_nil b front)
      rw [List.map_cons, List.cons_append, helloLoop, if_neg (List.cons_ne_nil b []), hone]
      show helloLoop (buffer ++ [b]) (bytes.map (fun b => [b]) ++ rest) = _
      rw [ih hmore, List.append_assoc, List.singleton_append]

/-- The record but its last byte in reads of one byte, and one read up to byte `last`. -/
def readsTo (stream : List UInt8) (needed last : ℕ) : List (List UInt8) :=
  (stream.take (needed - 1)).map (fun b => [b]) ++
    [(stream.drop (needed - 1)).take (last - (needed - 1))]

theorem cut_readsTo {last : ℕ} (hneeded : needed ≤ last) (hpos : 0 < needed)
    (hlast : last ≤ stream.length) (hsize : last ≤ needed + 1023) :
    Cut stream (readsTo stream needed last) where
  sizes := by
    intro chunk hchunk
    rcases List.mem_append.mp hchunk with hbyte | hrest
    · obtain ⟨b, -, rfl⟩ := List.mem_map.mp hbyte
      exact ⟨le_refl 1, by simp⟩
    · obtain rfl := List.mem_singleton.mp hrest
      rw [List.length_take, List.length_drop]
      omega
  here := by
    have hflat : ∀ bytes : List UInt8, (bytes.map fun b => [b]).flatten = bytes := by
      intro bytes
      rw [← List.flatMap_def, List.flatMap_singleton']
    rw [readsTo, List.flatten_append, hflat, List.flatten_singleton, ← List.take_add]
    exact List.take_prefix _ _

/-- Such reads end with what the loop makes of the bytes up to `last`. -/
theorem helloLoop_readsTo {last : ℕ} (htls : looksLikeTls stream = true)
    (hrecord : recordLength stream = some needed) (hmax : needed ≤ maxClientHello)
    (hneeded : needed ≤ last) (hlast : last ≤ stream.length) :
    helloLoop [] (readsTo stream needed last) = afterRead (stream.take last) := by
  have hfive := le_of_recordLength hrecord
  have hbefore : ∀ front, front <+: stream.take (needed - 1) → front ≠ [] →
      afterRead ([] ++ front) = none := by
    intro front hfront hne
    have hlen := hfront.length_le
    rw [List.length_take] at hlen
    have hstream := hfront.trans (List.take_prefix _ _)
    refine afterRead_of_short (looksLikeTls_of_front hstream hne ▸ htls) ?_ fun n hn => ?_
    · show front.length ≤ maxClientHello
      omega
    · have hheader := recordLength_of_front hstream (le_of_recordLength hn).2
      rw [hrecord] at hheader
      cases hn.symm.trans hheader
      show front.length < needed
      omega
  have hchunk : (stream.drop (needed - 1)).take (last - (needed - 1)) ≠ [] := by
    apply List.length_pos_iff.mp
    rw [List.length_take, List.length_drop]
    omega
  have hall : stream.take (needed - 1) ++ (stream.drop (needed - 1)).take (last - (needed - 1)) =
      stream.take last := by
    rw [← List.take_add, Nat.add_sub_cancel' (by omega)]
  rw [readsTo, helloLoop_bytes _ hbefore, List.nil_append, helloLoop, if_neg hchunk, hall]
  cases afterRead (stream.take last) <;> rfl

/-- A record near the ceiling with bytes behind it is parsed or refused as the reads fall. -/
theorem exists_two_outcomes (htls : looksLikeTls stream = true)
    (hrecord : recordLength stream = some needed) (hmax : needed ≤ maxClientHello)
    (hnear : maxClientHello < needed + 1023) (hlong : maxClientHello < stream.length) :
    ∃ reads reads', Cut stream reads ∧ Cut stream reads' ∧
      helloLoop [] reads = some (parsed (stream.take needed)) ∧
      helloLoop [] reads' = some (.error (.helloTooLarge maxClientHello)) := by
  have hfive := le_of_recordLength hrecord
  have hfirst : ∀ n, 0 < n → looksLikeTls (stream.take n) = true := by
    intro n hn
    rw [← looksLikeTls_of_front (List.take_prefix n stream), htls]
    apply List.length_pos_iff.mp
    rw [List.length_take]
    omega
  refine ⟨readsTo stream needed needed, readsTo stream needed (maxClientHello + 1),
    cut_readsTo le_rfl (by omega) (by omega) (by omega),
    cut_readsTo (by omega) (by omega) hlong (by omega), ?_, ?_⟩
  · have hlen : (stream.take needed).length = needed := List.length_take_of_le (by omega)
    have hheader := recordLength_of_front (List.take_prefix needed stream) (by omega)
    rw [helloLoop_readsTo htls hrecord hmax le_rfl (by omega)]
    exact afterRead_of_complete (hfirst needed (by omega)) (by omega) (hheader.trans hrecord)
      hlen.ge
  · rw [helloLoop_readsTo htls hrecord hmax (by omega) hlong]
    refine afterRead_of_large (hfirst _ (Nat.succ_pos _)) ?_
    rw [List.length_take_of_le hlong]
    exact Nat.lt_succ_self _

end Reads

namespace Scenario

/-- The header of a record as long as the ceiling allows. -/
def longestHeader : List UInt8 := [22, 3, 1, 64, 0]

/-- The longest record, and one byte behind it. -/
def longestAndMore : List UInt8 := longestHeader ++ List.replicate 16385 0

/-- A short hello, in two reads or in one. -/
theorem hello_segmentation_short : ∃ outcome outcome',
    helloLoop [] [helloForA.take 3, helloForA.drop 3] = some outcome ∧
      helloLoop [] [helloForA] = some outcome' ∧ outcome = outcome' :=
  have hcut : Cut helloForA [helloForA.take 3, helloForA.drop 3] := ⟨by decide, by decide⟩
  have hcut' : Cut helloForA [helloForA] := ⟨by decide, by decide⟩
  ⟨_, _, rfl, rfl, (hello_segmentation hcut hcut' (fun _ _ _ _ => .inr (by decide)) rfl rfl).1⟩

theorem hello_segmentation_longest : ∃ reads reads' outcome, Cut longestAndMore reads ∧
    Cut longestAndMore reads' ∧ helloLoop [] reads = some outcome ∧
    helloLoop [] reads' = some (.error (.helloTooLarge maxClientHello)) ∧
    outcome ≠ .error (.helloTooLarge maxClientHello) := by
  have hlong : maxClientHello < longestAndMore.length := by
    rw [longestAndMore, List.length_append, List.length_replicate]
    decide
  obtain ⟨reads, reads', hcut, hcut', hloop, hloop'⟩ :=
    exists_two_outcomes (show looksLikeTls longestAndMore = true from rfl)
      (show recordLength longestAndMore = some 16389 from rfl) (by decide) (by decide) hlong
  exact ⟨reads, reads', _, hcut, hcut', hloop, hloop', parsed_ne_helloTooLarge _ _⟩

end Scenario

end Cachic
