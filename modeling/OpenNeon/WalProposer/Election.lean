import Mathlib.Data.Prod.Lex
import OpenNeon.Base.System
import OpenNeon.Safekeeper.TruncationPoint

/-!
# The donor of an elected proposer

With every vote the proposer looks for the highest position among the safekeepers that
wait for its election.  The safekeeper with that position is the donor of the history of
the proposer.  The donor of an earlier round is not forgotten.
-/

namespace OpenNeon
namespace WalProposer
namespace Election

open Base Safekeeper

/-- The states as far as the election goes; `connecting` are all those before the vote. -/
inductive SafekeeperState where
  | offline
  | connecting
  | waitElected
  deriving DecidableEq

/-- A vote; the history is freed with the connection, but its length is kept. -/
structure Vote where
  nEntries : Nat
  entries : Option (List TermLsn)
  flushLsn : Lsn
  truncateLsn : Lsn

structure Peer where
  state : SafekeeperState
  voteResponse : Vote

structure Choice where
  donor : Option Nat
  donorLastLogTerm : Term
  propTermStartLsn : Lsn
  truncateLsn : Lsn

/-- All safekeepers, or one or two sets of members with the safekeepers they are mapped to. -/
inductive Mconf where
  | legacy (nSafekeepers : Nat)
  | sets (members newMembers : List (Option Nat))

structure PropStart where
  propTermStartLsn : Lsn
  truncateLsn : Lsn
  propTermHistory : TermHistory

structure Campaign where
  safekeeper : Nat -> Peer
  choice : Choice
  /-- The sets and the outcome of the round in which the votes were collected. -/
  elected : Option (Mconf × Option PropStart)

structure Config where
  propTerm : Term
  redoStartLsn : Lsn
  syncSafekeepers : Bool

def getLastLogTerm (v : Vote) : Term :=
  (v.entries.bind List.getLast?).elim 0 TermLsn.term

abbrev Peers := Nat -> Peer

def consider (peers : Peers) (c : Choice) (i : Nat) : Choice :=
  let v := (peers i).voteResponse
  let c' :=
    if getLastLogTerm v > c.donorLastLogTerm ∨
        (getLastLogTerm v = c.donorLastLogTerm ∧ v.flushLsn > c.propTermStartLsn) ∨
        c.donor = none then
      { c with
        donor := some i
        donorLastLogTerm := getLastLogTerm v
        propTermStartLsn := v.flushLsn }
    else c
  { c' with truncateLsn := max v.truncateLsn c'.truncateLsn }

def votersOf (peers : Peers) (members : List (Option Nat)) : List Nat :=
  (members.filterMap id).filter (fun i => (peers i).state = .waitElected)

def msetHasQuorum (mset : List (Option Nat)) (nVotes : Nat) : Bool :=
  mset.length / 2 + 1 ≤ nVotes

def votesCollectedMset (peers : Peers) (mset : List (Option Nat)) (c : Choice) : Bool × Choice :=
  (msetHasQuorum mset (votersOf peers mset).length, (votersOf peers mset).foldl (consider peers) c)

/-- The donor of the round before is kept. -/
def Choice.reset (c : Choice) : Choice :=
  { c with donorLastLogTerm := 0, propTermStartLsn := 0, truncateLsn := 0 }

def votesCollected (peers : Peers) (mconf : Mconf) (c : Choice) : Bool × Choice :=
  match mconf with
  | .legacy n => votesCollectedMset peers ((List.range n).map some) c.reset
  | .sets members newMembers =>
    let first := votesCollectedMset peers members c.reset
    if first.1 = true ∧ newMembers ≠ [] then
      votesCollectedMset peers newMembers first.2
    else first

def readHistory (v : Vote) : Option TermHistory :=
  if v.nEntries = 0 then some [] else v.entries

/-- Nothing if sync-safekeepers exits, or if the history of the donor is gone. -/
def processPropStartPos (config : Config) (peers : Peers) (c : Choice) : Option PropStart := do
  guard (c.propTermStartLsn ≠ 0 ∨ config.syncSafekeepers = false)
  let zero := c.propTermStartLsn = 0
  let start := if zero then config.redoStartLsn else c.propTermStartLsn
  let donor <- c.donor
  let dth <- readHistory (peers donor).voteResponse
  return { propTermStartLsn := start
           truncateLsn := if zero then start else c.truncateLsn
           propTermHistory := dth ++ [⟨config.propTerm, start⟩] }

/-!
## Runs
-/

inductive Event where
  | reconnect (i : Nat)
  /-- `ShutdownConnection` -/
  | disconnect (i : Nat)
  /-- A vote is received, with the current sets. -/
  | vote (i : Nat) (history : List TermLsn) (flushLsn truncateLsn : Lsn) (mconf : Mconf)

def Peer.shutdown (p : Peer) : Peer :=
  { state := .offline, voteResponse := { p.voteResponse with entries := none } }

def receive (peers : Peers) (i : Nat) (history : List TermLsn) (flushLsn truncateLsn : Lsn) :
    Peers :=
  Function.update peers i
    { state := .waitElected
      voteResponse := ⟨history.length, some history, flushLsn, truncateLsn⟩ }

def Campaign.next (config : Config) (s : Campaign) (e : Event) : Option Campaign :=
  if s.elected.isSome then none
  else
    match e with
    | .reconnect i =>
      if (s.safekeeper i).state = .offline then
        some { s with
          safekeeper := Function.update s.safekeeper i
            { s.safekeeper i with state := .connecting } }
      else none
    | .disconnect i =>
      some { s with safekeeper := Function.update s.safekeeper i (s.safekeeper i).shutdown }
    | .vote i history flushLsn truncateLsn mconf =>
      if (s.safekeeper i).state = .connecting then
        let peers := receive s.safekeeper i history flushLsn truncateLsn
        let round := votesCollected peers mconf s.choice
        some { safekeeper := peers
               choice := round.2
               elected :=
                 if round.1 then some (mconf, processPropStartPos config peers round.2)
                 else none }
      else none

def Campaign.start : Campaign where
  safekeeper := fun _ => ⟨.offline, ⟨0, none, 0, 0⟩⟩
  choice := ⟨none, 0, 0, 0⟩
  elected := none

/-!
## The highest vote
-/

/-- The last term and the end of the log of a voter, in lexicographic order. -/
def position (peers : Peers) (i : Nat) : Nat ×ₗ Nat :=
  toLex (getLastLogTerm (peers i).voteResponse, (peers i).voteResponse.flushLsn)

def Choice.position (c : Choice) : Nat ×ₗ Nat :=
  toLex (c.donorLastLogTerm, c.propTermStartLsn)

def voters (peers : Peers) : Mconf -> List Nat
  | .legacy n => votersOf peers ((List.range n).map some)
  | .sets members newMembers => votersOf peers members ++ votersOf peers newMembers

/-- Donor and position after some voters, if `donor` was the donor before. -/
structure Chosen (peers : Peers) (donor : Option Nat) (seen : List Nat) (c : Choice) :
    Prop where
  le : forall j, j ∈ seen -> position peers j ≤ c.position
  donor : (exists i, i ∈ seen ∧ c.donor = some i ∧ position peers i = c.position) ∨
    c.donor = donor ∧ c.position = toLex (0, 0) ∧ (donor = none -> seen = [])

variable {peers : Peers} {donor : Option Nat} {seen vs : List Nat} {c : Choice}

theorem zero_le_position (p : Nat ×ₗ Nat) : toLex (0, 0) ≤ p :=
  bot_le

theorem Chosen.consider (h : Chosen peers donor seen c) (j : Nat) :
    Chosen peers donor (seen ++ [j]) (consider peers c j) := by
  have hhigher : (getLastLogTerm (peers j).voteResponse > c.donorLastLogTerm ∨
      (getLastLogTerm (peers j).voteResponse = c.donorLastLogTerm ∧
        (peers j).voteResponse.flushLsn > c.propTermStartLsn) ∨ c.donor = none) <->
      c.position < Election.position peers j ∨ c.donor = none := by
    rw [Choice.position, Election.position, Prod.Lex.toLex_lt_toLex, or_assoc]
    simp only [gt_iff_lt, eq_comm]
  unfold Election.consider
  dsimp only
  by_cases hnew : c.position < Election.position peers j ∨ c.donor = none
  · rw [if_pos (hhigher.mpr hnew)]
    refine ⟨fun j' hj' => ?_, .inl ⟨j, by simp, rfl, rfl⟩⟩
    rcases List.mem_append.mp hj' with hj' | hj'
    · refine (h.le j' hj').trans ?_
      rcases hnew with hlt | hnone
      · exact hlt.le
      · rcases h.donor with ⟨i, -, hi, -⟩ | ⟨-, hzero, -⟩
        · cases hi.symm.trans hnone
        · exact hzero ▸ zero_le_position _
    · cases List.mem_singleton.mp hj'
      exact le_refl _
  · rw [if_neg (mt hhigher.mp hnew)]
    obtain ⟨hle, hdonor⟩ := not_or.mp hnew
    refine ⟨forall_mem_concat h.le (not_lt.mp hle), ?_⟩
    · rcases h.donor with ⟨i, hi, hrest⟩ | ⟨hsame, hzero, -⟩
      · exact .inl ⟨i, List.mem_append_left _ hi, hrest⟩
      · exact .inr ⟨hsame, hzero, fun hnone => absurd (hsame.trans hnone) hdonor⟩

theorem Chosen.foldl (h : Chosen peers donor seen c) :
    Chosen peers donor (seen ++ vs) (vs.foldl (Election.consider peers) c) := by
  induction vs generalizing seen c with
  | nil => simpa using h
  | cons j vs ih =>
    have hrest := ih (h.consider j)
    rwa [List.append_assoc] at hrest

theorem chosen_reset (c : Choice) : Chosen peers c.donor [] c.reset where
  le := by simp
  donor := .inr ⟨rfl, rfl, fun _ => rfl⟩

theorem votersOf_ne_nil {mset : List (Option Nat)}
    (h : msetHasQuorum mset (votersOf peers mset).length = true) : votersOf peers mset ≠ [] := by
  intro hnil
  simp [msetHasQuorum, hnil] at h

variable {mconf : Mconf} {i : Nat} {config : Config}

theorem chosen_of_collected (h : (votesCollected peers mconf c).1 = true) :
    Chosen peers c.donor (voters peers mconf) (votesCollected peers mconf c).2 ∧
      voters peers mconf ≠ [] := by
  cases mconf with
  | legacy n => exact ⟨(chosen_reset c).foldl, votersOf_ne_nil h⟩
  | sets members newMembers =>
    have hfirst : Chosen peers c.donor (votersOf peers members)
        (votesCollectedMset peers members c.reset).2 := (chosen_reset c).foldl
    unfold votesCollected at h ⊢
    dsimp only at h ⊢
    split at h
    next hboth =>
      rw [if_pos hboth]
      exact ⟨hfirst.foldl, List.append_ne_nil_of_left_ne_nil (votersOf_ne_nil hboth.1) _⟩
    next hboth =>
      have hnil : newMembers = [] := by
        by_contra hne
        exact hboth ⟨h, hne⟩
      subst hnil
      rw [if_neg hboth]
      have hvoters : voters peers (.sets members []) = votersOf peers members := by
        simp [voters, votersOf]
      rw [hvoters]
      exact ⟨hfirst, votersOf_ne_nil h⟩

/-!
## The elected proposer
-/

/-- The first donor is among the voters, or there is none, or some voter has a log. -/
def DonorIsVoter (peers : Peers) (mconf : Mconf) (donor : Option Nat) : Prop :=
  (forall d, donor = some d -> d ∈ voters peers mconf) ∨
    exists j, j ∈ voters peers mconf ∧ position peers j ≠ toLex (0, 0)

/-- A safekeeper's history: in order, of earlier terms, and within its log. -/
structure ProperHistory (config : Config) (history : List TermLsn) (flushLsn : Lsn) : Prop where
  ordered : TermHistory.Ordered history
  terms : forall e, e ∈ history -> e.term < config.propTerm
  lsns : forall e, e ∈ history -> e.lsn ≤ flushLsn

def ProperVote (config : Config) : Event -> Prop
  | .vote _ history flushLsn _ _ => ProperHistory config history flushLsn
  | _ => True

/-- The steps of a campaign in which no forgotten donor is left. -/
def Regular (config : Config) (s : Campaign) (e : Event) : Prop :=
  ProperVote config e ∧
    match e with
    | .vote i history flushLsn truncateLsn mconf =>
      DonorIsVoter (receive s.safekeeper i history flushLsn truncateLsn) mconf s.choice.donor
    | _ => True

/-- The donor is the voter with the highest position, and the history starts there. -/
structure Highest (config : Config) (s : Campaign) (mconf : Mconf) (start : Option PropStart)
    (d : Nat) : Prop where
  donor : s.choice.donor = some d
  state : (s.safekeeper d).state = .waitElected
  greatest : IsGreatest { p | exists j, j ∈ voters s.safekeeper mconf ∧
    p = position s.safekeeper j } (position s.safekeeper d)
  exits : start = none -> config.syncSafekeepers = true ∧ (s.safekeeper d).voteResponse.flushLsn = 0
  lsn : forall out, start = some out -> out.propTermStartLsn =
    if (s.safekeeper d).voteResponse.flushLsn = 0 then config.redoStartLsn
    else (s.safekeeper d).voteResponse.flushLsn
  history : forall out, start = some out -> TermHistory.Ordered out.propTermHistory ∧
    out.propTermHistory.getLast? = some ⟨config.propTerm, out.propTermStartLsn⟩

theorem state_of_mem_voters (h : i ∈ voters peers mconf) : (peers i).state = .waitElected := by
  cases mconf with
  | legacy n => simpa [voters] using (List.mem_filter.mp h).2
  | sets members newMembers =>
    rcases List.mem_append.mp h with h | h <;> simpa using (List.mem_filter.mp h).2

theorem Chosen.voter (h : Chosen peers donor (voters peers mconf) c)
    (hne : voters peers mconf ≠ []) (hdonor : DonorIsVoter peers mconf donor) :
    exists d, d ∈ voters peers mconf ∧ c.donor = some d ∧ position peers d = c.position := by
  rcases h.donor with hchosen | ⟨hsame, hzero, hnone⟩
  · exact hchosen
  · obtain ⟨d, hd⟩ := Option.ne_none_iff_exists'.mp (fun heq => hne (hnone heq))
    have hall : forall j, j ∈ voters peers mconf -> position peers j = toLex (0, 0) :=
      fun j hj => le_antisymm (hzero ▸ h.le j hj) (zero_le_position _)
    rcases hdonor with hmem | ⟨j, hj, hlog⟩
    · exact ⟨d, hmem d hd, hsame.trans hd, (hall d (hmem d hd)).trans hzero.symm⟩
    · exact absurd (hall j hj) hlog

theorem processPropStartPos_eq (config : Config) {d : Nat} {history : TermHistory}
    (hdonor : c.donor = some d) (hread : readHistory (peers d).voteResponse = some history) :
    processPropStartPos config peers c =
      if c.propTermStartLsn = 0 ∧ config.syncSafekeepers = true then none
      else
        let start := if c.propTermStartLsn = 0 then config.redoStartLsn else c.propTermStartLsn
        some ⟨start, if c.propTermStartLsn = 0 then start else c.truncateLsn,
          history ++ [⟨config.propTerm, start⟩]⟩ := by
  unfold processPropStartPos
  by_cases hexit : c.propTermStartLsn = 0 ∧ config.syncSafekeepers = true
  · simp [hexit]
  · have hguard : c.propTermStartLsn ≠ 0 ∨ config.syncSafekeepers = false := by
      rcases not_and_or.mp hexit with h | h
      · exact .inl h
      · exact .inr (Bool.eq_false_of_not_eq_true h)
    rw [if_neg hexit]
    simp [hguard, hdonor, hread]

theorem ordered_append {history : List TermLsn} {flushLsn start : Lsn}
    (h : ProperHistory config history flushLsn) (hle : flushLsn ≤ start) :
    TermHistory.Ordered (history ++ [⟨config.propTerm, start⟩]) :=
  ⟨pairwise_concat h.ordered.terms h.terms,
    pairwise_concat h.ordered.lsns (fun a ha => Nat.le_trans (h.lsns a ha) hle)⟩

/-- Who waits for the election has voted, with a proper history. -/
def Voted (config : Config) (peers : Peers) : Prop :=
  forall i, (peers i).state = .waitElected -> exists history,
    readHistory (peers i).voteResponse = some history ∧
      ProperHistory config history (peers i).voteResponse.flushLsn

theorem voted_receive (h : Voted config peers) {history : List TermLsn}
    {flushLsn truncateLsn : Lsn} (hproper : ProperHistory config history flushLsn) :
    Voted config (receive peers i history flushLsn truncateLsn) := by
  intro j hj
  by_cases hij : j = i
  · subst hij
    refine ⟨history, ?_, by simpa [receive] using hproper⟩
    cases history <;> simp [receive, readHistory]
  · have hsame : receive peers i history flushLsn truncateLsn j = peers j := by
      simp [receive, hij]
    rw [hsame] at hj ⊢
    exact h j hj

theorem voted_update (h : Voted config peers) {p : Peer} (hp : p.state ≠ .waitElected) :
    Voted config (Function.update peers i p) := by
  intro j hj
  by_cases hij : j = i
  · subst hij
    rw [Function.update_self] at hj
    exact absurd hj hp
  · rw [Function.update_of_ne hij] at hj ⊢
    exact h j hj

theorem highest_of_collected (hvoted : Voted config peers)
    (hcollected : (votesCollected peers mconf c).1 = true)
    (hdonor : DonorIsVoter peers mconf c.donor) :
    exists d, Highest config
      { safekeeper := peers
        choice := (votesCollected peers mconf c).2
        elected := some (mconf, processPropStartPos config peers (votesCollected peers mconf c).2) }
      mconf (processPropStartPos config peers (votesCollected peers mconf c).2) d := by
  obtain ⟨hchosen, hne⟩ := chosen_of_collected hcollected
  obtain ⟨d, hd, hchoice, hposition⟩ := hchosen.voter hne hdonor
  have hstate := state_of_mem_voters hd
  obtain ⟨history, hread, hproper⟩ := hvoted d hstate
  have hlsn : (peers d).voteResponse.flushLsn = (votesCollected peers mconf c).2.propTermStartLsn :=
    congrArg (fun p => (ofLex p).2) hposition
  have hstart := processPropStartPos_eq config hchoice hread
  refine ⟨d, hchoice, hstate, ⟨⟨d, hd, rfl⟩, ?_⟩, ?_, ?_, ?_⟩
  · rintro _ ⟨j, hj, rfl⟩
    exact hposition ▸ hchosen.le j hj
  · intro hnone
    rw [hstart] at hnone
    split at hnone
    next hexit => exact ⟨hexit.2, hlsn.trans hexit.1⟩
    · cases hnone
  · intro out hout
    rw [hstart] at hout
    split at hout
    · cases hout
    · cases hout
      simp only [hlsn]
  · intro out hout
    rw [hstart] at hout
    split at hout
    · cases hout
    · cases hout
      refine ⟨ordered_append hproper ?_, by simp⟩
      rw [hlsn]
      split
      next hzero => exact hzero ▸ Nat.zero_le _
      · exact Nat.le_refl _

structure Sound (config : Config) (s : Campaign) : Prop where
  voted : Voted config s.safekeeper
  elected : forall mconf start, s.elected = some (mconf, start) ->
    exists d, Highest config s mconf start d

theorem sound_next {s s' : Campaign} {e : Event} (h : Sound config s)
    (hok : Regular config s e) (hnext : s.next config e = some s') : Sound config s' := by
  unfold Campaign.next at hnext
  split at hnext
  · cases hnext
  next hcampaign =>
    have hnone : s.elected = none := Option.not_isSome_iff_eq_none.mp hcampaign
    cases e with
    | reconnect i =>
      dsimp only at hnext
      split at hnext
      · cases hnext
        exact ⟨voted_update h.voted (by simp), (fun _ _ hel => by cases hnone.symm.trans hel)⟩
      · cases hnext
    | disconnect i =>
      cases hnext
      exact ⟨voted_update h.voted (by simp [Peer.shutdown]),
        (fun _ _ hel => by cases hnone.symm.trans hel)⟩
    | vote i history flushLsn truncateLsn mconf =>
      dsimp only at hnext
      split at hnext
      · cases hnext
        have hvoted : Voted config (receive s.safekeeper i history flushLsn truncateLsn) :=
          voted_receive h.voted hok.1
        refine ⟨hvoted, fun mconf' start hel => ?_⟩
        split at hel
        next hcollected =>
          cases hel
          simpa only [hcollected, if_true] using highest_of_collected hvoted hcollected hok.2
        · cases hel
      · cases hnext

/-- In the round in which the votes are collected, the donor is the highest voter. -/
theorem donor_is_highest_voter (config : Config) (s : Campaign)
    (h : Reached (Campaign.next config) (Regular config) .start s) (mconf : Mconf)
    (start : Option PropStart) (helected : s.elected = some (mconf, start)) :
    exists d, Highest config s mconf start d := by
  have hstart : Sound config .start :=
    ⟨(fun _ hstate => by cases hstate), (fun _ _ hel => by cases hel)⟩
  have hsound : Sound config s :=
    h.invariant hstart (fun _ _ _ hs hok hnext => sound_next hs hok hnext)
  exact hsound.elected mconf start helected

def threeMembers : Mconf :=
  .sets [some 0, some 1, some 2] []

theorem donor_is_highest_voter_two :
    exists s start, Reached (Campaign.next ⟨3, 80, false⟩) (Regular ⟨3, 80, false⟩) .start s ∧
      s.elected = some (threeMembers, start) ∧
      exists d, Highest ⟨3, 80, false⟩ s threeMembers start d := by
  have hproper : forall lsn, 10 ≤ lsn -> ProperHistory ⟨3, 80, false⟩ [⟨2, 10⟩] lsn :=
    fun lsn hle => ⟨⟨by decide, by decide⟩, by decide, by simpa using hle⟩
  have hfirst : Reached (Campaign.next ⟨3, 80, false⟩) (Regular ⟨3, 80, false⟩) .start _ :=
    Reached.start.step (.reconnect 0) ⟨trivial, trivial⟩ rfl
  have hsecond := hfirst.step (Event.reconnect 1) ⟨trivial, trivial⟩ rfl
  have hvote := hsecond.step (Event.vote 0 [⟨2, 10⟩] 50 40 threeMembers)
    ⟨hproper 50 (by decide), .inl (fun d hd => by cases hd)⟩ rfl
  have hcollected := hvote.step (Event.vote 1 [⟨2, 10⟩] 60 40 threeMembers)
    ⟨hproper 60 (by decide), .inr ⟨0, by decide, by decide⟩⟩ rfl
  exact ⟨_, _, hcollected, rfl, donor_is_highest_voter _ _ hcollected _ _ rfl⟩

/-- The first voter is the only one with a log; it disconnects.  The votes of the other
two are enough, and the donor is still the first one, which is offline. -/
theorem donor_is_offline :
    exists s start, Reached (Campaign.next ⟨3, 80, false⟩)
        (fun _ e => ProperVote ⟨3, 80, false⟩ e) .start s ∧
      s.elected = some (threeMembers, start) ∧
      exists d, s.choice.donor = some d ∧ (s.safekeeper d).state = .offline := by
  have hempty : ProperHistory ⟨3, 80, false⟩ [] 0 :=
    ⟨⟨by decide, by decide⟩, by decide, by decide⟩
  have hzero : Reached (Campaign.next ⟨3, 80, false⟩)
      (fun _ e => ProperVote ⟨3, 80, false⟩ e) .start _ :=
    Reached.start.step (.reconnect 0) trivial rfl
  have hone := hzero.step (Event.reconnect 1) trivial rfl
  have htwo := hone.step (Event.reconnect 2) trivial rfl
  have hvote := htwo.step (Event.vote 0 [⟨2, 10⟩] 50 40 threeMembers)
    ⟨⟨by decide, by decide⟩, by decide, by decide⟩ rfl
  have hgone := hvote.step (Event.disconnect 0) trivial rfl
  have hnext := hgone.step (Event.vote 1 [] 0 0 threeMembers) hempty rfl
  have hcollected := hnext.step (Event.vote 2 [] 0 0 threeMembers) hempty rfl
  exact ⟨_, _, hcollected, rfl, 0, rfl, rfl⟩

end Election
end WalProposer
end OpenNeon
