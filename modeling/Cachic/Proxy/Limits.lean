import Cachic.Lib.Team
import Cachic.Range

/-!
# Connection limits

`ConnectionLimit` counts the open connections, all of them and those of each peer.  The two
counts are kept by different means: `open` is an atomic that is read and then exchanged,
the peers' counts are a map behind a lock.  A connection takes its peer's slot first, then a
global one, and gives the first back if there is no second; its permit's drop gives back both,
one after the other.  Each of those is one step here, so that any number of connections
interleave as threads of `limiter`.

`connection_accounting` says that both counts are exact between any two steps.
-/

namespace Cachic

open Range ThreadTeam

/-- The two ceilings.  Without a second one nothing is counted by peer. -/
structure Ceilings where
  max : ℕ
  perPeer : Option ℕ
  max_word : max < 2 ^ 64
  perPeer_word : ∀ limit, perPeer = some limit → limit < 2 ^ 64

/-- What the connections share.  `opened` is the source's `open`. -/
structure ConnectionLimit (Peer : Type) where
  opened : ℕ
  rejected : ℕ
  peers : Peer → Option ℕ
  rejectedPerPeer : ℕ

namespace ConnectionLimit

variable {Peer : Type} [DecidableEq Peer] (l : ConnectionLimit Peer)

def new : ConnectionLimit Peer where
  opened := 0
  rejected := 0
  peers := fun _ => none
  rejectedPerPeer := 0

/-- The connections counted for a peer. -/
def count (peer : Peer) : ℕ := (l.peers peer).getD 0

/-- The locked claim of a slot that is free. -/
def claim (peer : Peer) : ConnectionLimit Peer :=
  { l with peers := Function.update l.peers peer (some (wrapAdd 64 (l.count peer) 1)) }

/-- The locked claim of a slot that is not: the entry made for it does not stay. -/
def refusePeer (peer : Peer) : ConnectionLimit Peer :=
  { l with rejectedPerPeer := wrapAdd 64 l.rejectedPerPeer 1
           rejected := wrapAdd 64 l.rejected 1
           peers := Function.update l.peers peer
             (if l.count peer = 0 then none else some (l.count peer)) }

/-- Give a peer's slot back, under the lock.  The last one takes the entry with it. -/
def giveBack (peer : Peer) : ConnectionLimit Peer :=
  match l.peers peer with
  | none => l
  | some count =>
      let left := wrapSub 64 count 1
      { l with peers := Function.update l.peers peer (if left = 0 then none else some left) }

theorem opened_giveBack (peer : Peer) : (l.giveBack peer).opened = l.opened := by
  unfold giveBack
  split <;> rfl

theorem rejected_giveBack (peer : Peer) : (l.giveBack peer).rejected = l.rejected := by
  unfold giveBack
  split <;> rfl

/-- Only the peer's own entry changes. -/
theorem peers_giveBack_of_ne {peer other : Peer} (h : other ≠ peer) :
    (l.giveBack peer).peers other = l.peers other := by
  unfold giveBack
  split
  · rfl
  · exact Function.update_of_ne h _ _

/-- `acquire_global` finds the ceiling reached. -/
def reject : ConnectionLimit Peer := { l with rejected := wrapAdd 64 l.rejected 1 }

end ConnectionLimit

/-- Where a connection is.  A `slot` is the peer whose count it is in. -/
inductive Connection (Peer : Type)
  /-- before `try_acquire_for` of a peer, or `try_acquire` -/
  | arriving (source : Option Peer)
  /-- `acquire_global`, before the load -/
  | loading (slot : Option Peer)
  /-- before the next exchange -/
  | exchanging (slot : Option Peer) (current : ℕ)
  /-- refused by the global ceiling, before the peer's slot is given back -/
  | rollingBack (peer : Peer)
  | refused (byPeer : Bool)
  /-- has its permit -/
  | holding (slot : Option Peer)
  /-- the permit's drop has lowered `open` and not the peer's count -/
  | closing (peer : Peer)
  | closed
  deriving DecidableEq, Repr

/-- A weak exchange may fail although the value is the expected one. -/
inductive LimitChoice
  | go
  | spurious
  deriving DecidableEq, Repr

namespace Connection

variable {Peer : Type} [DecidableEq Peer]

def start : Connection Peer → Bool
  | .arriving _ => true
  | _ => false

def move (c : Ceilings) : Connection Peer → LimitChoice → ConnectionLimit Peer →
    Option (Connection Peer × ConnectionLimit Peer)
  | .arriving none, _, l => some (.loading none, l)
  | .arriving (some peer), _, l =>
      match c.perPeer with
      | none => some (.loading none, l)
      | some limit =>
          if limit ≤ l.count peer then some (.refused true, l.refusePeer peer)
          else some (.loading (some peer), l.claim peer)
  | .loading slot, _, l => some (.exchanging slot l.opened, l)
  | .exchanging slot current, choice, l =>
      if c.max ≤ current then
        match slot with
        | none => some (.refused false, l.reject)
        | some peer => some (.rollingBack peer, l.reject)
      else if l.opened = current ∧ choice = .go then
        some (.holding slot, { l with opened := wrapAdd 64 current 1 })
      else some (.exchanging slot l.opened, l)
  | .rollingBack peer, _, l => some (.refused false, l.giveBack peer)
  | .holding none, _, l => some (.closed, { l with opened := wrapSub 64 l.opened 1 })
  | .holding (some peer), _, l =>
      some (.closing peer, { l with opened := wrapSub 64 l.opened 1 })
  | .closing peer, _, l => some (.closed, l.giveBack peer)
  | .refused _, _, _ => none
  | .closed, _, _ => none

/-- The peer whose count a connection is in. -/
def slot : Connection Peer → Option Peer
  | .loading slot => slot
  | .exchanging slot _ => slot
  | .rollingBack peer => some peer
  | .holding slot => slot
  | .closing peer => some peer
  | .arriving _ => none
  | .refused _ => none
  | .closed => none

def isIn (peer : Peer) (t : Connection Peer) : Bool := t.slot = some peer

@[simp] theorem isIn_eq_true {peer : Peer} {t : Connection Peer} :
    t.isIn peer = true ↔ t.slot = some peer := decide_eq_true_iff

/-- The permits that are live. -/
def isLive : Connection Peer → Bool
  | .holding _ => true
  | _ => false

/-- The permits of a peer that are live. -/
def isLiveOf (peer : Peer) : Connection Peer → Bool
  | .holding slot => slot = some peer
  | _ => false

/-- The claims of a peer in progress, those being rolled back included. -/
def isClaimOf (peer : Peer) : Connection Peer → Bool
  | .loading slot => slot = some peer
  | .exchanging slot _ => slot = some peer
  | .rollingBack p => p = peer
  | _ => false

/-- The drops of a peer's permits in progress. -/
def isDropOf (peer : Peer) : Connection Peer → Bool
  | .closing p => p = peer
  | _ => false

/-- The acquisitions that were refused. -/
def isRefusal : Connection Peer → Bool
  | .refused _ => true
  | .rollingBack _ => true
  | _ => false

/-- Neither a permit nor a step of one in progress. -/
def isIdle : Connection Peer → Bool
  | .arriving _ => true
  | .refused _ => true
  | .closed => true
  | _ => false

end Connection

/-- Any number of connections over one limit. -/
def limiter (Peer : Type) [DecidableEq Peer] (c : Ceilings) :
    Machine (ConnectionLimit Peer) (Connection Peer) LimitChoice where
  start := Connection.start
  move := fun _ => Connection.move c

abbrev LimitTeam (Peer : Type) := Team (ConnectionLimit Peer) (Connection Peer)

def LimitTeam.new {Peer : Type} : LimitTeam Peer := { shared := .new, threads := [] }

/-! ## What a step can do -/

section Steps

variable {Peer : Type} [DecidableEq Peer]

/-- The moves of a connection, one rule for each branch of the source. -/
inductive Connection.Moves (c : Ceilings) (l : ConnectionLimit Peer) :
    Connection Peer → Connection Peer → ConnectionLimit Peer → Prop
  | uncounted {source : Option Peer} (h : source = none ∨ c.perPeer = none) :
      Moves c l (.arriving source) (.loading none) l
  | claimed {peer : Peer} {limit : ℕ} (hlimit : c.perPeer = some limit)
      (hroom : l.count peer < limit) :
      Moves c l (.arriving (some peer)) (.loading (some peer)) (l.claim peer)
  | peerFull {peer : Peer} {limit : ℕ} (hlimit : c.perPeer = some limit)
      (hfull : limit ≤ l.count peer) :
      Moves c l (.arriving (some peer)) (.refused true) (l.refusePeer peer)
  | loaded {slot : Option Peer} : Moves c l (.loading slot) (.exchanging slot l.opened) l
  | full {current : ℕ} (hfull : c.max ≤ current) :
      Moves c l (.exchanging none current) (.refused false) l.reject
  | fullFor {peer : Peer} {current : ℕ} (hfull : c.max ≤ current) :
      Moves c l (.exchanging (some peer) current) (.rollingBack peer) l.reject
  | exchanged {slot : Option Peer} (hroom : l.opened < c.max) :
      Moves c l (.exchanging slot l.opened) (.holding slot)
        { l with opened := wrapAdd 64 l.opened 1 }
  | retried {slot : Option Peer} {current : ℕ} :
      Moves c l (.exchanging slot current) (.exchanging slot l.opened) l
  | rolledBack {peer : Peer} :
      Moves c l (.rollingBack peer) (.refused false) (l.giveBack peer)
  | dropped : Moves c l (.holding none) .closed { l with opened := wrapSub 64 l.opened 1 }
  | droppedFor {peer : Peer} :
      Moves c l (.holding (some peer)) (.closing peer) { l with opened := wrapSub 64 l.opened 1 }
  | gaveBack {peer : Peer} : Moves c l (.closing peer) .closed (l.giveBack peer)

theorem Connection.moves_of_move {c : Ceilings} {t t' : Connection Peer} {choice : LimitChoice}
    {l l' : ConnectionLimit Peer} (h : t.move c choice l = some (t', l')) : t.Moves c l t' l' := by
  cases t with
  | arriving source =>
      cases source with
      | none =>
          cases h
          exact .uncounted (.inl rfl)
      | some peer =>
          simp only [Connection.move] at h
          split at h
          · next hnone =>
              cases h
              exact .uncounted (.inr hnone)
          · next limit hlimit =>
              split at h
              · next hfull =>
                  cases h
                  exact .peerFull hlimit hfull
              · next hroom =>
                  cases h
                  exact .claimed hlimit (not_le.mp hroom)
  | loading slot =>
      cases h
      exact .loaded
  | exchanging slot current =>
      simp only [Connection.move] at h
      split at h
      · next hfull =>
          cases slot with
          | none =>
              cases h
              exact .full hfull
          | some peer =>
              cases h
              exact .fullFor hfull
      · next hroom =>
          split at h
          · next hsame =>
              obtain ⟨rfl, -⟩ := hsame
              cases h
              exact .exchanged (not_le.mp hroom)
          · cases h
            exact .retried
  | rollingBack peer =>
      cases h
      exact .rolledBack
  | holding slot =>
      cases slot with
      | none =>
          cases h
          exact .dropped
      | some peer =>
          cases h
          exact .droppedFor
  | closing peer =>
      cases h
      exact .gaveBack
  | refused byPeer => cases h
  | closed => cases h

end Steps

/-! ## The accounts -/

section Accounts

variable {Peer : Type} {c : Ceilings} {l l' : ConnectionLimit Peer} {n : ℕ} {peer : Peer}

/-- `open` accounts for `n` permits. -/
def Ceilings.Opened (c : Ceilings) (l : ConnectionLimit Peer) (n : ℕ) : Prop :=
  l.opened = n ∧ n ≤ c.max

/-- The map accounts for `n` connections in the count of a peer: there is an entry unless it
would be zero. -/
def Ceilings.Counted (c : Ceilings) (peer : Peer) (l : ConnectionLimit Peer) (n : ℕ) : Prop :=
  l.peers peer = (if n = 0 then none else some n) ∧ n ≤ c.perPeer.getD 0

/-- A word that has counted to `n`; it wraps. -/
def Tallied (value n : ℕ) : Prop := value = n % 2 ^ 64

theorem Tallied.succ {value : ℕ} (h : Tallied value n) :
    Tallied (wrapAdd 64 value 1) (n + 1) := by
  unfold Tallied at h ⊢
  rw [h, wrapAdd, Nat.mod_add_mod]

namespace Ceilings

theorem Counted.count (h : c.Counted peer l n) : l.count peer = n := by
  rw [ConnectionLimit.count, h.1]
  split
  · next hzero => exact hzero.symm
  · rfl

theorem Counted.word (h : c.Counted peer l n) : n < 2 ^ 64 := by
  have hle := h.2
  cases hlimit : c.perPeer with
  | none =>
      rw [hlimit] at hle
      exact lt_of_le_of_lt hle (Nat.two_pow_pos 64)
  | some limit =>
      rw [hlimit] at hle
      exact lt_of_le_of_lt hle (c.perPeer_word limit hlimit)

theorem Counted.of_eq (h : c.Counted peer l n) (hpeers : l'.peers peer = l.peers peer) :
    c.Counted peer l' n := ⟨hpeers.trans h.1, h.2⟩

variable [DecidableEq Peer]

theorem Counted.claim {limit : ℕ} (h : c.Counted peer l n) (hlimit : c.perPeer = some limit)
    (hroom : l.count peer < limit) : c.Counted peer (l.claim peer) (n + 1) := by
  have hword := c.perPeer_word limit hlimit
  rw [h.count] at hroom
  refine ⟨?_, ?_⟩
  · show Function.update l.peers peer (some (wrapAdd 64 (l.count peer) 1)) peer = _
    rw [Function.update_self, h.count, wrapAdd_of_lt (by omega), if_neg (Nat.succ_ne_zero n)]
  · rw [hlimit]
    exact hroom

/-- A refusal puts the entry back as it was. -/
theorem Counted.refusePeer (h : c.Counted peer l n) : c.Counted peer (l.refusePeer peer) n := by
  refine ⟨?_, h.2⟩
  show Function.update l.peers peer _ peer = _
  rw [Function.update_self, h.count]

theorem Counted.giveBack (h : c.Counted peer l n) (hpos : 0 < n) :
    c.Counted peer (l.giveBack peer) (n - 1) := by
  have hentry : l.peers peer = some n := by rw [h.1, if_neg hpos.ne']
  refine ⟨?_, le_trans (Nat.sub_le n 1) h.2⟩
  simp only [ConnectionLimit.giveBack, hentry, Function.update_self,
    wrapSub_of_le hpos h.word]

end Ceilings

end Accounts

/-! ## One step -/

section OneStep

variable {Peer : Type} [DecidableEq Peer] {c : Ceilings} {l l' : ConnectionLimit Peer}
  {t t' : Connection Peer} {n : ℕ}

/-- A move changes `open` as it changes the number of permits. -/
theorem Connection.Moves.opened (h : t.Moves c l t' l') (hn : c.Opened l n)
    (hpos : t.isLive = true → 0 < n) :
    ∃ n', c.Opened l' n' ∧
      n' + (if t.isLive then 1 else 0) = n + (if t'.isLive then 1 else 0) := by
  have hmax := c.max_word
  obtain ⟨hopened, hle⟩ := hn
  -- a permit that is dropped was counted
  have hdrop : 0 < n → c.Opened { l with opened := wrapSub 64 l.opened 1 } (n - 1) := by
    intro hlive
    refine ⟨?_, by omega⟩
    show wrapSub 64 l.opened 1 = n - 1
    rw [hopened, wrapSub_of_le hlive (by omega)]
  cases h with
  | exchanged hroom =>
      refine ⟨n + 1, ⟨?_, by omega⟩, rfl⟩
      show wrapAdd 64 l.opened 1 = n + 1
      rw [hopened, wrapAdd_of_lt (by omega)]
  | dropped =>
      have hlive := hpos rfl
      exact ⟨n - 1, hdrop hlive, Nat.sub_add_cancel hlive⟩
  | droppedFor =>
      have hlive := hpos rfl
      exact ⟨n - 1, hdrop hlive, Nat.sub_add_cancel hlive⟩
  | rolledBack => exact ⟨n, ⟨(l.opened_giveBack _).trans hopened, hle⟩, rfl⟩
  | gaveBack => exact ⟨n, ⟨(l.opened_giveBack _).trans hopened, hle⟩, rfl⟩
  | _ => exact ⟨n, ⟨hopened, hle⟩, rfl⟩

/-- A move changes a peer's count as it changes the number of connections in it. -/
theorem Connection.Moves.counted {peer : Peer} (h : t.Moves c l t' l')
    (hn : c.Counted peer l n) (hpos : t.isIn peer = true → 0 < n) :
    ∃ n', c.Counted peer l' n' ∧
      n' + (if t.isIn peer then 1 else 0) = n + (if t'.isIn peer then 1 else 0) := by
  -- a slot that is given back was counted
  have hgive : ∀ {p : Peer}, (p = peer → 0 < n) →
      ∃ n', c.Counted peer (l.giveBack p) n' ∧ n' + (if p = peer then 1 else 0) = n := by
    intro p hp
    by_cases hsame : p = peer
    · subst hsame
      refine ⟨n - 1, hn.giveBack (hp rfl), ?_⟩
      rw [if_pos rfl, Nat.sub_add_cancel (hp rfl)]
    · refine ⟨n, hn.of_eq (l.peers_giveBack_of_ne (Ne.symm hsame)), ?_⟩
      rw [if_neg hsame, Nat.add_zero]
  cases h with
  | @claimed p limit hlimit hroom =>
      by_cases hsame : p = peer
      · subst hsame
        refine ⟨n + 1, hn.claim hlimit hroom, ?_⟩
        simp [Connection.slot]
      · refine ⟨n, hn.of_eq (Function.update_of_ne (Ne.symm hsame) _ _), ?_⟩
        simp [Connection.slot, hsame]
  | @peerFull p limit hlimit hfull =>
      refine ⟨n, ?_, rfl⟩
      by_cases hsame : p = peer
      · subst hsame
        exact hn.refusePeer
      · exact hn.of_eq (Function.update_of_ne (Ne.symm hsame) _ _)
  | @rolledBack p =>
      obtain ⟨n', hn', hcount⟩ := @hgive p fun hp =>
        hpos (by simp [Connection.slot, hp])
      exact ⟨n', hn', by simpa [Connection.slot] using hcount⟩
  | @gaveBack p =>
      obtain ⟨n', hn', hcount⟩ := @hgive p fun hp =>
        hpos (by simp [Connection.slot, hp])
      exact ⟨n', hn', by simpa [Connection.slot] using hcount⟩
  | _ => exact ⟨n, hn.of_eq rfl, rfl⟩

/-- A move changes `rejected` as it changes the number of refusals. -/
theorem Connection.Moves.rejected (h : t.Moves c l t' l') (hn : Tallied l.rejected n) :
    ∃ n', Tallied l'.rejected n' ∧
      n' + (if t.isRefusal then 1 else 0) = n + (if t'.isRefusal then 1 else 0) := by
  cases h with
  | peerFull _ _ => exact ⟨n + 1, hn.succ, rfl⟩
  | full _ => exact ⟨n + 1, hn.succ, rfl⟩
  | fullFor _ => exact ⟨n + 1, hn.succ, rfl⟩
  | rolledBack =>
      rw [ConnectionLimit.rejected_giveBack]
      exact ⟨n, hn, rfl⟩
  | gaveBack =>
      rw [ConnectionLimit.rejected_giveBack]
      exact ⟨n, hn, rfl⟩
  | _ => exact ⟨n, hn, rfl⟩

end OneStep

/-! ## Every run -/

section Runs

variable {Peer : Type} {c : Ceilings}

/-- A connection that has just come is in no account. -/
theorem Connection.eq_arriving_of_start {t : Connection Peer} (h : t.start = true) :
    ∃ source, t = .arriving source := by
  cases t with
  | arriving source => exact ⟨source, rfl⟩
  | _ => cases h

variable [DecidableEq Peer]

theorem opened_account : (limiter Peer c).Account c.Opened Connection.isLive where
  start := by
    intro t hstart
    obtain ⟨source, rfl⟩ := Connection.eq_arriving_of_start hstart
    rfl
  move := fun hn hpos hmove => (Connection.moves_of_move hmove).opened hn hpos

theorem counted_account (peer : Peer) :
    (limiter Peer c).Account (c.Counted peer) (Connection.isIn peer) where
  start := by
    intro t hstart
    obtain ⟨source, rfl⟩ := Connection.eq_arriving_of_start hstart
    rfl
  move := fun hn hpos hmove => (Connection.moves_of_move hmove).counted hn hpos

theorem rejected_account :
    (limiter Peer c).Account (fun l n => Tallied l.rejected n) Connection.isRefusal where
  start := by
    intro t hstart
    obtain ⟨source, rfl⟩ := Connection.eq_arriving_of_start hstart
    rfl
  move := fun hn _ hmove => (Connection.moves_of_move hmove).rejected hn

/-- The accounts are what the connections make them. -/
structure LimitTeam.Balanced (c : Ceilings) (team : LimitTeam Peer) : Prop where
  opened : c.Opened team.shared (team.threads.countP Connection.isLive)
  counted : ∀ peer, c.Counted peer team.shared (team.threads.countP (Connection.isIn peer))
  rejected : Tallied team.shared.rejected (team.threads.countP Connection.isRefusal)

theorem LimitTeam.Balanced.new (c : Ceilings) : (LimitTeam.new : LimitTeam Peer).Balanced c :=
  ⟨⟨rfl, Nat.zero_le _⟩, fun _ => ⟨rfl, Nat.zero_le _⟩, rfl⟩

theorem LimitTeam.Balanced.run {team team' : LimitTeam Peer}
    {steps : List (Step (Connection Peer) LimitChoice)} (h : team.Balanced c)
    (hrun : (limiter Peer c).run team steps = some team') : team'.Balanced c :=
  ⟨opened_account.run h.opened hrun, fun peer => (counted_account peer).run (h.counted peer) hrun,
    rejected_account.run h.rejected hrun⟩

/-- The connections in a peer's count: its live permits, its claims and its drops in
progress. -/
theorem countP_isIn (peer : Peer) (threads : List (Connection Peer)) :
    threads.countP (Connection.isIn peer) =
      threads.countP (Connection.isLiveOf peer) + threads.countP (Connection.isClaimOf peer) +
        threads.countP (Connection.isDropOf peer) := by
  induction threads with
  | nil => rfl
  | cons t rest ih =>
      have hone : (if t.isIn peer then 1 else 0) = (if t.isLiveOf peer then 1 else 0) +
          (if t.isClaimOf peer then 1 else 0) + (if t.isDropOf peer then 1 else 0) := by
        cases t <;> simp [Connection.slot, Connection.isLiveOf, Connection.isClaimOf,
          Connection.isDropOf]
      simp only [List.countP_cons, ih]
      omega

/-- What the accounts of a limit come to. -/
structure LimitTeam.Accounted (c : Ceilings) (team : LimitTeam Peer) : Prop where
  opened : team.shared.opened = team.threads.countP Connection.isLive
  opened_le : team.shared.opened ≤ c.max
  /-- a drop does not take `open` below zero -/
  opened_pos : ∀ slot, .holding slot ∈ team.threads → 0 < team.shared.opened
  counted : ∀ peer, team.shared.count peer =
    team.threads.countP (Connection.isLiveOf peer) +
      team.threads.countP (Connection.isClaimOf peer) +
      team.threads.countP (Connection.isDropOf peer)
  counted_le : ∀ peer limit, c.perPeer = some limit → team.shared.count peer ≤ limit
  no_zero : ∀ peer, team.shared.peers peer ≠ some 0
  entries : ∀ peer, (team.shared.peers peer).isSome = true ↔
    ∃ t ∈ team.threads, t.isLiveOf peer ∨ t.isClaimOf peer ∨ t.isDropOf peer
  rejected : team.shared.rejected = team.threads.countP Connection.isRefusal % 2 ^ 64
  idle : (∀ t ∈ team.threads, t.isIdle = true) →
    team.shared.opened = 0 ∧ ∀ peer, team.shared.peers peer = none

/-- A connection is in the count of a peer as one of the three. -/
theorem Connection.isIn_iff (peer : Peer) (t : Connection Peer) :
    t.isIn peer = true ↔ t.isLiveOf peer ∨ t.isClaimOf peer ∨ t.isDropOf peer := by
  cases t <;> simp [Connection.slot, Connection.isLiveOf, Connection.isClaimOf,
    Connection.isDropOf]

/-- An idle connection is in neither account. -/
theorem Connection.out_of_idle {t : Connection Peer} (h : t.isIdle = true) :
    ¬ t.isLive = true ∧ ∀ peer, ¬ t.isIn peer = true := by
  cases t with
  | arriving _ | refused _ | closed => simp [Connection.isLive, Connection.slot]
  | _ => cases h

theorem LimitTeam.Balanced.accounted {team : LimitTeam Peer} (h : team.Balanced c) :
    team.Accounted c := by
  have hentry := fun peer => (h.counted peer).1
  have hcount := fun peer => (h.counted peer).count
  refine
    { opened := h.opened.1
      opened_le := h.opened.1 ▸ h.opened.2
      opened_pos := fun slot hslot => ?_
      counted := fun peer => (hcount peer).trans (countP_isIn peer team.threads)
      counted_le := fun peer limit hlimit => ?_
      no_zero := fun peer hzero => ?_
      entries := fun peer => ?_
      rejected := h.rejected
      idle := fun hidle => ?_ }
  · rw [h.opened.1, List.countP_pos_iff]
    exact ⟨_, hslot, rfl⟩
  · have hle := (h.counted peer).2
    rw [hlimit] at hle
    exact (hcount peer).trans_le hle
  · rw [hentry peer] at hzero
    split at hzero
    · cases hzero
    · next hne => exact hne (Option.some.inj hzero)
  · simp only [← Connection.isIn_iff]
    rw [hentry peer, ← List.countP_pos_iff]
    split
    · next hzero => simp [hzero]
    · next hne => simp [Nat.pos_of_ne_zero hne]
  · have hlive : team.threads.countP Connection.isLive = 0 :=
      List.countP_eq_zero.mpr fun t ht => (Connection.out_of_idle (hidle t ht)).1
    have hin : ∀ peer, team.threads.countP (Connection.isIn peer) = 0 := fun peer =>
      List.countP_eq_zero.mpr fun t ht => (Connection.out_of_idle (hidle t ht)).2 peer
    exact ⟨h.opened.1.trans hlive, fun peer => by rw [hentry peer, hin peer, if_pos rfl]⟩

/-- **Connection accounting is exact**, in every interleaving of any number of connections;
and what the steps of an acquisition that is refused change of either count comes to
nothing. -/
theorem connection_accounting {before steps : List (Step (Connection Peer) LimitChoice)}
    {start team : LimitTeam Peer} (hbefore : (limiter Peer c).run LimitTeam.new before = some start)
    (hrun : (limiter Peer c).run start steps = some team) :
    team.Accounted c ∧
      ∀ tid source byPeer, start.threads[tid]? = some (.arriving source) →
        team.threads[tid]? = some (.refused byPeer) →
        (limiter Peer c).ownChange (fun l => l.opened) tid start steps = 0 ∧
          ∀ peer, (limiter Peer c).ownChange (fun l => l.count peer) tid start steps = 0 := by
  have hstart := (LimitTeam.Balanced.new c).run hbefore
  refine ⟨(hstart.run hrun).accounted, fun tid source byPeer hfirst hlast => ⟨?_, fun peer => ?_⟩⟩
  · exact opened_account.ownChange (fun h => h.1) hstart.opened hfirst hrun hlast
  · exact (counted_account peer).ownChange (fun h => h.count) (hstart.counted peer) hfirst hrun
      hlast

end Runs

namespace Scenario

/-- One connection at a time, and one for each peer. -/
def oneEach : Ceilings where
  max := 1
  perPeer := some 1
  max_word := by decide
  perPeer_word := fun limit h => by
    cases h
    decide

/-- Peer 1 has its connection, and peer 2 comes. -/
def oneOpen : List (Step (Connection ℕ) LimitChoice) :=
  [.spawn (.arriving (some 1)), .go 0 .go, .go 0 .go, .go 0 .go, .spawn (.arriving (some 2))]

/-- Peer 2 claims its slot, is refused by the global ceiling and gives the slot back. -/
def secondRefused : List (Step (Connection ℕ) LimitChoice) :=
  [.go 1 .go, .go 1 .go, .go 1 .go, .go 1 .go]

theorem connection_accounting_refusal : ∃ start team : LimitTeam ℕ,
    (limiter ℕ oneEach).run LimitTeam.new oneOpen = some start ∧
      (limiter ℕ oneEach).run start secondRefused = some team ∧ team.Accounted oneEach ∧
      (limiter ℕ oneEach).ownChange (fun l => l.opened) 1 start secondRefused = 0 :=
  ⟨_, _, rfl, rfl, (@connection_accounting ℕ oneEach _ oneOpen secondRefused _ _ rfl rfl).1,
    ((@connection_accounting ℕ oneEach _ oneOpen secondRefused _ _ rfl rfl).2 1 (some 2) false
      rfl rfl).1⟩

end Scenario

end Cachic
