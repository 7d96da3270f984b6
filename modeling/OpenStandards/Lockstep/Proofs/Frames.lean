/-
When lockstep frames are atomic and honest.

A frame that finds no supermajority has advanced every node already, so the
only way never to see half a frame is never to fail. The states and fault
flags a run starts from fix which nodes vote alike, and both properties of
a vote survive a frame (`agrees_call`). A hash function that keeps the
states apart turns every other cluster into a failed or a dishonest frame
(`separate`).
-/
import OpenStandards.Lockstep.Cluster
import Mathlib.Data.Nat.Bitwise

namespace OpenStandards.Lockstep

open Lib SmartByte

-- ==== the tally

def votersFor (votes : List (Said × Blake3Hash)) (h : Blake3Hash) : Finset Said :=
  ((votes.filter fun v => v.2 = h).map Prod.fst).toFinset

theorem votersFor_concat (votes : List (Said × Blake3Hash))
    (v : Said × Blake3Hash) (h : Blake3Hash) :
    votersFor (votes ++ [v]) h
      = if v.2 = h then insert v.1 (votersFor votes h)
        else votersFor votes h := by
  unfold votersFor
  rw [List.filter_append, List.map_append, List.toFinset_append]
  by_cases hv : v.2 = h
  · rw [if_pos hv, List.filter_cons_of_pos (by simpa using hv), Finset.union_comm]
    rfl
  · rw [if_neg hv, List.filter_cons_of_neg (by simpa using hv)]
    exact Finset.union_empty _

theorem lookup_tally (votes : List (Said × Blake3Hash)) (h : Blake3Hash) :
    AList.lookup h (votes.foldl VoteTally.count ∅)
      = if ∃ v ∈ votes, v.2 = h then some (votersFor votes h) else none := by
  induction votes using List.reverseRecOn with
  | nil =>
    rw [if_neg (by simp)]
    rfl
  | append_singleton votes v ih =>
    rw [List.foldl_append, List.foldl_cons, List.foldl_nil]
    show AList.lookup h (AList.insert v.2 _ (List.foldl _ _ _)) = _
    rw [Table.lookup_insert_eq, votersFor_concat]
    by_cases hv : h = v.2
    · subst hv
      rw [if_pos rfl, if_pos ⟨v, by simp, rfl⟩, if_pos rfl, ih]
      by_cases hex : ∃ w ∈ votes, w.2 = v.2
      · rw [if_pos hex]
        rfl
      · -- the first vote for this hash: nobody was counted before
        rw [if_neg hex]
        have hnone : votersFor votes v.2 = ∅ := by
          unfold votersFor
          rw [List.filter_eq_nil_iff.2]
          · rfl
          · intro w hw heq
            exact hex ⟨w, hw, of_decide_eq_true heq⟩
        rw [hnone]
        rfl
    · rw [if_neg hv, if_neg (fun heq : v.2 = h => hv heq.symm), ih]
      have hiff : (∃ w ∈ votes ++ [v], w.2 = h) ↔ ∃ w ∈ votes, w.2 = h := by
        constructor
        · rintro ⟨w, hw, hwh⟩
          rcases List.mem_append.1 hw with hw | hw
          · exact ⟨w, hw, hwh⟩
          · rw [List.mem_singleton.1 hw] at hwh
            exact absurd hwh.symm hv
        · rintro ⟨w, hw, hwh⟩
          exact ⟨w, List.mem_append_left _ hw, hwh⟩
      simp only [hiff]

-- ==== what a frame does

namespace Cluster

def DistinctIds (c : Cluster) : Prop := (c.nodes.map Node.id).Nodup

/-- The supermajority. -/
def needed (c : Cluster) : Nat := 2 * c.nodes.length / 3 + 1

section

variable {T : Type} {blake3 : List UInt8 → Blake3Hash}
  {cbor : T → List UInt8} {c : Cluster}

theorem card_votersFor (hd : c.DistinctIds) (frame : Frame T) (h : Blake3Hash) :
    (votersFor (c.votes blake3 cbor frame) h).card
      = c.nodes.countP fun node => (node.step blake3 cbor frame).2 = h := by
  unfold votersFor votes
  rw [List.filter_map, List.map_map, List.toFinset_card_of_nodup]
  · rw [List.length_map, List.countP_eq_length_filter]
    rfl
  · exact List.Nodup.sublist (List.filter_sublist.map _) hd

theorem mem_votersFor {frame : Frame T} {node : Node} (hmem : node ∈ c.nodes) :
    node.id ∈ votersFor (c.votes blake3 cbor frame) (node.step blake3 cbor frame).2 := by
  unfold votersFor votes
  rw [List.mem_toFinset, List.mem_map]
  refine ⟨(node.id, (node.step blake3 cbor frame).2), ?_, rfl⟩
  rw [List.mem_filter]
  exact ⟨List.mem_map.2 ⟨node, hmem, rfl⟩, decide_eq_true rfl⟩

def frameOf (c : Cluster) (f : FrameCall T) : Frame T :=
  { frameNumber := c.frame, orderedTransitions := f.transitions }

/-- Everything a frame can do: step the nodes, and commit the hash with
the most voters where these are enough. -/
theorem step_cases (blake3 : List UInt8 → Blake3Hash)
    (cbor : T → List UInt8) (hd : c.DistinctIds) (hne : c.nodes ≠ [])
    (f : FrameCall T) :
    ∃ h voters, voters = votersFor (c.votes blake3 cbor (c.frameOf f)) h
      ∧ (∀ h', c.nodes.countP (fun node => (node.step blake3 cbor (c.frameOf f)).2 = h')
        ≤ c.nodes.countP (fun node => (node.step blake3 cbor (c.frameOf f)).2 = h))
      ∧ voters.card = c.nodes.countP (fun node => (node.step blake3 cbor (c.frameOf f)).2 = h)
      ∧ (c.call blake3 cbor f).nodes = c.stepped blake3 cbor (c.frameOf f)
      ∧ (c.step blake3 cbor f.order f.transitions).2
          = if voters.card < c.needed then
              .error (.noSupermajority c.frame voters.card c.nodes.length)
            else .ok ⟨c.frame, h, voters⟩ := by
  let tally : VoteTally :=
    (c.votes blake3 cbor (c.frameOf f)).foldl VoteTally.count ∅
  have hentry : ∀ e : VoteEntry, e ∈ f.order.order tally.entries
      ↔ AList.lookup e.1 tally = some e.2 := by
    intro e
    rw [(f.order.perm _).mem_iff]
    exact AList.mem_lookup_iff.symm
  -- somebody votes, so the walk finds a winner
  obtain ⟨node₀, hnode₀⟩ := List.exists_mem_of_ne_nil _ hne
  have hvoted : ∀ node ∈ c.nodes, AList.lookup
      (node.step blake3 cbor (c.frameOf f)).2 tally
        = some (votersFor (c.votes blake3 cbor (c.frameOf f))
            (node.step blake3 cbor (c.frameOf f)).2) := by
    intro node hmem
    rw [lookup_tally, if_pos]
    exact ⟨_, List.mem_map.2 ⟨node, hmem, rfl⟩, rfl⟩
  have hwalk : f.order.order tally.entries ≠ [] := by
    intro hnil
    have hin := (hentry ⟨_, _⟩).2 (hvoted node₀ hnode₀)
    rw [hnil] at hin
    cases hin
  obtain ⟨⟨h, voters⟩, hbest⟩ := scanBest_isSome
    (fun a b : VoteEntry => b.2.card ≤ a.2.card) hwalk
  obtain ⟨hin, hmax⟩ := scanBest_max (fun e : VoteEntry => e.2.card)
    (fun a b hr => of_decide_eq_true hr)
    (fun a b hr => Nat.le_of_lt (Nat.lt_of_not_le (of_decide_eq_false hr)))
    hbest
  have hvoters : voters = votersFor (c.votes blake3 cbor (c.frameOf f)) h := by
    have hlook := (hentry ⟨h, voters⟩).1 hin
    rw [lookup_tally] at hlook
    split at hlook
    · exact (Option.some.inj hlook).symm
    · cases hlook
  have hcard : voters.card = c.nodes.countP
      (fun node => (node.step blake3 cbor (c.frameOf f)).2 = h) := by
    rw [hvoters, card_votersFor hd]
  have hstep : c.step blake3 cbor f.order f.transitions
      = if voters.card < c.needed then
          (⟨c.stepped blake3 cbor (c.frameOf f), c.frame,
              (c.length_stepped blake3 cbor _).trans_lt c.size⟩,
            .error (.noSupermajority c.frame voters.card c.nodes.length))
        else
          (⟨c.stepped blake3 cbor (c.frameOf f), c.frame + 1,
              (c.length_stepped blake3 cbor _).trans_lt c.size⟩,
            .ok ⟨c.frame, h, voters⟩) := by
    unfold step
    rw [if_neg hne]
    have hwinner : scanBest (fun a b : VoteEntry => b.2.card ≤ a.2.card)
        (f.order.order ((c.votes blake3 cbor ⟨c.frame, f.transitions⟩).foldl
          VoteTally.count ∅).entries) = some ⟨h, voters⟩ := hbest
    dsimp only
    rw [hwinner]
    rfl
  refine ⟨h, voters, hvoters, ?_, hcard, ?_, ?_⟩
  · intro h'
    by_cases hex : ∃ node ∈ c.nodes, (node.step blake3 cbor (c.frameOf f)).2 = h'
    · obtain ⟨node, hmem, rfl⟩ := hex
      rw [← hcard, ← card_votersFor hd]
      exact hmax ⟨_, _⟩ ((hentry ⟨_, _⟩).2 (hvoted node hmem))
    · rw [List.countP_eq_zero.2]
      · exact Nat.zero_le _
      · intro node hmem heq
        exact hex ⟨node, hmem, of_decide_eq_true heq⟩
  · unfold call
    rw [hstep]
    split <;> rfl
  · rw [hstep]
    split <;> rfl

-- ==== what is claimed

def faultyCount (c : Cluster) : Nat := c.nodes.countP fun node => node.faulty

def SameState (c : Cluster) (i j : Nat) : Prop :=
  c.nodes[i]?.map Node.state = c.nodes[j]?.map Node.state

/-- A call is atomic where it fails, and honest where it commits with at
most a third of the nodes faulty. -/
structure FrameSound (blake3 : List UInt8 → Blake3Hash)
    (cbor : T → List UInt8) (c : Cluster) (f : FrameCall T) : Prop where
  atomic : ∀ e, (c.step blake3 cbor f.order f.transitions).2 = .error e →
    c.call blake3 cbor f = c
  honest : ∀ commit,
    (c.step blake3 cbor f.order f.transitions).2 = .ok commit →
    c.faultyCount ≤ c.nodes.length / 3 →
    (∀ node ∈ (c.call blake3 cbor f).nodes, node.faulty = false →
      node.state = commit.stateHash ∧ node.id ∈ commit.committedBy)
    ∧ ∀ i j, c.SameState i j → (c.call blake3 cbor f).SameState i j

def sharing (c : Cluster) (state : Blake3Hash) (faulty : Bool) : Nat :=
  c.nodes.countP fun node => node.state = state ∧ node.faulty = faulty

/-- More than two thirds of the nodes share their state and their fault
flag, and the honest nodes share their state unless more than a third of
the cluster is faulty. -/
def Agrees (c : Cluster) : Prop :=
  c.nodes = []
    ∨ (∃ state faulty, c.needed ≤ c.sharing state faulty)
      ∧ (c.faultyCount ≤ c.nodes.length / 3 →
        ∀ a ∈ c.nodes, ∀ b ∈ c.nodes, a.faulty = false → b.faulty = false → a.state = b.state)

-- ==== agreement suffices

theorem step_of_nil (hnil : c.nodes = []) (f : FrameCall T) :
    c.step blake3 cbor f.order f.transitions = (c, .error .emptyCluster) := if_pos hnil

theorem call_nodes (hd : c.DistinctIds) (f : FrameCall T) :
    (c.call blake3 cbor f).nodes = c.stepped blake3 cbor (c.frameOf f) := by
  by_cases hne : c.nodes = []
  · unfold call stepped
    rw [step_of_nil hne, hne]
    rfl
  · obtain ⟨h, voters, -, -, -, hnodes, -⟩ :=
      step_cases blake3 cbor hd hne f
    exact hnodes

theorem sameState_call (hd : c.DistinctIds) (f : FrameCall T) {i j : Nat}
    (h : c.SameState i j) : (c.call blake3 cbor f).SameState i j := by
  have hstate : ∀ k : Nat, (c.call blake3 cbor f).nodes[k]?.map Node.state
      = (c.nodes[k]?.map Node.state).map (absorb blake3 cbor (c.frameOf f)) := by
    intro k
    rw [call_nodes hd, stepped, List.getElem?_map, Option.map_map, Option.map_map]
    rfl
  unfold SameState at h ⊢
  rw [hstate, hstate, h]

theorem distinctIds_call (hd : c.DistinctIds) (f : FrameCall T) :
    (c.call blake3 cbor f).DistinctIds := by
  unfold DistinctIds
  rw [call_nodes hd, stepped, List.map_map]
  exact hd

theorem faultyCount_call (hd : c.DistinctIds) (f : FrameCall T) :
    (c.call blake3 cbor f).faultyCount = c.faultyCount := by
  unfold faultyCount
  rw [call_nodes hd, stepped, List.countP_map]
  rfl

theorem length_call (hd : c.DistinctIds) (f : FrameCall T) :
    (c.call blake3 cbor f).nodes.length = c.nodes.length := by
  rw [call_nodes hd, length_stepped]

/-- Agreement survives a frame: what is equal before it is equal
after it. -/
theorem agrees_call (hd : c.DistinctIds) (f : FrameCall T)
    (h : c.Agrees) : (c.call blake3 cbor f).Agrees := by
  rcases h with hnil | ⟨⟨state, faulty, hshare⟩, hhonest⟩
  · left
    rw [call_nodes hd, stepped, hnil]
    rfl
  · refine Or.inr ⟨⟨absorb blake3 cbor (c.frameOf f) state, faulty, ?_⟩, ?_⟩
    · unfold needed sharing at hshare ⊢
      rw [length_call hd, call_nodes hd, stepped, List.countP_map]
      refine hshare.trans (List.countP_mono_left fun node _ hnode => ?_)
      obtain ⟨hs, hf⟩ := of_decide_eq_true hnode
      refine decide_eq_true ⟨?_, hf⟩
      exact congrArg (absorb blake3 cbor (c.frameOf f)) hs
    · rw [faultyCount_call hd, length_call hd, call_nodes hd]
      intro hfew a ha b hb hfa hfb
      obtain ⟨a', ha', rfl⟩ := List.mem_map.1 ha
      obtain ⟨b', hb', rfl⟩ := List.mem_map.1 hb
      exact congrArg (absorb blake3 cbor (c.frameOf f)) (hhonest hfew a' ha' b' hb' hfa hfb)

/-- A hash with a supermajority has an honest voter, unless more than a
third of the cluster is faulty. -/
theorem exists_honest_voter {p : Node → Bool} (hmany : c.needed ≤ c.nodes.countP p)
    (hfew : c.faultyCount ≤ c.nodes.length / 3) :
    ∃ node ∈ c.nodes, p node = true ∧ node.faulty = false := by
  by_contra hno
  have hle : c.nodes.countP p ≤ c.faultyCount := by
    refine List.countP_mono_left fun node hmem hp => ?_
    cases hf : node.faulty with
    | true => rfl
    | false => exact absurd ⟨node, hmem, hp, hf⟩ hno
  unfold needed at hmany
  omega

theorem frameSound_of_agrees (hd : c.DistinctIds) (h : c.Agrees)
    (f : FrameCall T) : FrameSound blake3 cbor c f := by
  by_cases hne : c.nodes = []
  · refine ⟨fun _ _ => ?_, fun commit hok _ => ?_⟩
    · unfold call
      rw [step_of_nil hne]
    · rw [step_of_nil hne] at hok
      cases hok
  obtain ⟨⟨state, faulty, hshare⟩, hhonest⟩ := h.resolve_left hne
  obtain ⟨best, voters, hvoters, hmost, hcard, hnodes, hresult⟩ :=
    step_cases blake3 cbor hd hne f
  -- the nodes that share their state and their flag vote alike
  have halike : c.needed ≤ c.nodes.countP fun node =>
      (node.step blake3 cbor (c.frameOf f)).2
        = (Node.step blake3 cbor (c.frameOf f)
            { id := ⟨0⟩, state, faulty }).2 := by
    refine hshare.trans (List.countP_mono_left fun node _ hnode => ?_)
    obtain ⟨hs, hf⟩ := of_decide_eq_true hnode
    refine decide_eq_true ?_
    unfold Node.step
    rw [hs, hf]
  have hmany := halike.trans (hmost _)
  rw [hcard, if_neg (Nat.not_lt.2 hmany)] at hresult
  refine ⟨fun e he => ?_, fun commit hok hfew => ?_⟩
  · rw [hresult] at he
    cases he
  · rw [hresult] at hok
    cases hok
    refine ⟨?_, fun i j hij => sameState_call hd f hij⟩
    obtain ⟨node₀, hmem₀, hvote₀, hfaulty₀⟩ :=
      exists_honest_voter hmany hfew
    intro node hmem hfaulty
    rw [hnodes] at hmem
    obtain ⟨node', hmem', rfl⟩ := List.mem_map.1 hmem
    have hstate := hhonest hfew node' hmem' node₀ hmem₀ hfaulty hfaulty₀
    have hvote : (node'.step blake3 cbor (c.frameOf f)).2 = best := by
      rw [← of_decide_eq_true hvote₀]
      unfold Node.step
      rw [hstate, hfaulty₀, show node'.faulty = false from hfaulty]
    have hhash : (node'.step blake3 cbor (c.frameOf f)).1.state = best := by
      rw [← hvote]
      show _ = if node'.faulty = true then _ else _
      rw [if_neg (by rw [show node'.faulty = false from hfaulty]; nofun)]
      rfl
    refine ⟨hhash, ?_⟩
    show node'.id ∈ voters
    rw [hvoters, ← hvote]
    exact mem_votersFor hmem'

-- ==== and is necessary

/-- A digest for a state of the cluster: even, told apart by the position
of the first node in that state, and not the state of the first node. -/
def separate (nodes : List Node) (state : Blake3Hash) : Blake3Hash :=
  BitVec.ofNat 256 (2 * nodes.findIdx (fun node => node.state = state)
    + if (nodes.head?.map Node.state) = some 0 then 2 ^ 100 else 0)

def separatingHash (nodes : List Node) (message : List UInt8) : Blake3Hash :=
  separate nodes (BitVec.ofNat 256 (ofLeBytes (message.take 32)))

theorem absorb_separatingHash (nodes : List Node) (frame : Frame T) (state : Blake3Hash) :
    absorb (separatingHash nodes) cbor frame state = separate nodes state := by
  have hlen : (hashBytes state).length = 32 := length_leBytes 32 _
  unfold absorb separatingHash
  rw [List.append_assoc, List.take_left' hlen, ofLeBytes_hashBytes]

theorem separate_toNat (hsize : c.nodes.length < 9223372036854775808) (state : Blake3Hash) :
    (separate c.nodes state).toNat
      = 2 * c.nodes.findIdx (fun node => node.state = state)
        + if (c.nodes.head?.map Node.state) = some 0 then 2 ^ 100 else 0 := by
  have hidx : c.nodes.findIdx (fun node => decide (node.state = state))
      ≤ c.nodes.length := List.findIdx_le_length
  unfold separate
  rw [BitVec.toNat_ofNat, Nat.mod_eq_of_lt]
  split <;> omega

/-- States of the cluster have different digests. -/
theorem separate_injective {a b : Node} (ha : a ∈ c.nodes) (hb : b ∈ c.nodes)
    (h : separate c.nodes a.state = separate c.nodes b.state) :
    a.state = b.state := by
  have hn := congrArg BitVec.toNat h
  rw [separate_toNat c.size, separate_toNat c.size] at hn
  have hidx : c.nodes.findIdx (fun node => node.state = a.state)
      = c.nodes.findIdx (fun node => node.state = b.state) := by omega
  have hlt : c.nodes.findIdx (fun node => decide (node.state = a.state)) < c.nodes.length :=
    List.findIdx_lt_length_of_exists ⟨a, ha, decide_eq_true rfl⟩
  have hlt' : c.nodes.findIdx (fun node => decide (node.state = b.state)) < c.nodes.length :=
    List.findIdx_lt_length_of_exists ⟨b, hb, decide_eq_true rfl⟩
  have hga := of_decide_eq_true (List.findIdx_getElem (w := hlt))
  have hgb := of_decide_eq_true (List.findIdx_getElem (w := hlt'))
  rw [← hga, ← hgb]
  congr 2

/-- No digest is another with its low bit flipped. -/
theorem separate_xor_ne (hsize : c.nodes.length < 9223372036854775808)
    (state state' : Blake3Hash) :
    separate c.nodes state ^^^ 1 ≠ separate c.nodes state' := by
  intro h
  have hn := congrArg (fun x : Blake3Hash => x.toNat % 2) h
  simp only [BitVec.toNat_xor] at hn
  rw [separate_toNat hsize, separate_toNat hsize, Nat.xor_mod_two_eq] at hn
  have hone : (1 : Blake3Hash).toNat = 1 := rfl
  rw [hone] at hn
  split at hn <;> omega

theorem separate_head_ne {node : Node} {rest : List Node} (hc : c.nodes = node :: rest) :
    separate c.nodes node.state ≠ node.state := by
  intro h
  have hn := congrArg BitVec.toNat h
  rw [separate_toNat c.size, hc, List.findIdx_cons,
    decide_eq_true rfl, cond_true, List.head?_cons] at hn
  simp only [Option.map_some, Option.some.injEq] at hn
  by_cases hz : node.state = 0
  · rw [if_pos hz, hz] at hn
    exact absurd hn (by decide)
  · rw [if_neg hz] at hn
    exact hz (BitVec.eq_of_toNat_eq hn.symm)

theorem alike_of_vote (cbor : T → List UInt8) (frame : Frame T)
    {a b : Node} (ha : a ∈ c.nodes) (hb : b ∈ c.nodes)
    (h : (a.step (separatingHash c.nodes) cbor frame).2
      = (b.step (separatingHash c.nodes) cbor frame).2) :
    a.state = b.state ∧ a.faulty = b.faulty := by
  unfold Node.step at h
  simp only [absorb_separatingHash] at h
  cases hfa : a.faulty <;> cases hfb : b.faulty <;>
    rw [hfa, hfb] at h <;> simp only [if_true, Bool.false_eq_true, if_false]
      at h
  · exact ⟨separate_injective ha hb h, rfl⟩
  · exact absurd h.symm (separate_xor_ne c.size _ _)
  · exact absurd h (separate_xor_ne c.size _ _)
  · refine ⟨separate_injective ha hb ?_, rfl⟩
    have hx := congrArg (· ^^^ (1 : Blake3Hash)) h
    simpa [BitVec.xor_assoc] using hx

/-- A cluster whose next frame is sound under the separating hash
agrees. -/
theorem agrees_of_frameSound (hd : c.DistinctIds) (f : FrameCall T)
    (h : FrameSound (separatingHash c.nodes) cbor c f) : c.Agrees := by
  cases hc : c.nodes with
  | nil => exact Or.inl hc
  | cons node₀ rest =>
    right
    have hne : c.nodes ≠ [] := by
      rw [hc]
      exact List.cons_ne_nil _ _
    obtain ⟨best, voters, -, -, hcard, hnodes, hresult⟩ :=
      step_cases (separatingHash c.nodes) cbor hd hne f
    by_cases hfail : voters.card < c.needed
    · -- a failed frame has moved the first node
      exfalso
      rw [if_pos hfail] at hresult
      have hsame := h.atomic _ hresult
      rw [hsame] at hnodes
      unfold stepped at hnodes
      have hhead := congrArg List.head? hnodes
      rw [hc, List.map_cons, List.head?_cons, List.head?_cons] at hhead
      have hstate := congrArg Node.state (Option.some.inj hhead)
      rw [← hc] at hstate
      change node₀.state
        = absorb (separatingHash c.nodes) cbor (c.frameOf f) node₀.state
        at hstate
      rw [absorb_separatingHash] at hstate
      exact separate_head_ne hc hstate.symm
    · rw [if_neg hfail] at hresult
      have hmany : c.needed ≤ c.nodes.countP fun node =>
          (node.step (separatingHash c.nodes) cbor (c.frameOf f)).2 = best := by
        rw [← hcard]
        exact Nat.not_lt.1 hfail
      refine ⟨?_, ?_⟩
      · obtain ⟨a, ha, hvote⟩ := List.countP_pos_iff.1
          (Nat.lt_of_lt_of_le (Nat.succ_pos _) hmany)
        refine ⟨a.state, a.faulty, hmany.trans (List.countP_mono_left fun b hb hvoteb => ?_)⟩
        refine decide_eq_true (alike_of_vote cbor (c.frameOf f) hb ha ?_)
        exact (of_decide_eq_true hvoteb).trans (of_decide_eq_true hvote).symm
      · intro hfew a ha b hb hfa hfb
        obtain ⟨hhonest, -⟩ := h.honest _ hresult hfew
        rw [hnodes] at hhonest
        have hstate : ∀ x ∈ c.nodes, x.faulty = false → separate c.nodes x.state = best := by
          intro x hx hfx
          have hx' := (hhonest _ (List.mem_map.2 ⟨x, hx, rfl⟩) hfx).1
          exact (absorb_separatingHash c.nodes _ _).symm.trans hx'
        exact separate_injective ha hb ((hstate a ha hfa).trans (hstate b hb hfb).symm)

end

-- ==== the theorem

/-- **When lockstep frames are atomic and honest.** For a cluster with
distinct ids: under every hash function and in every run of frames, each
call is atomic where it fails and honest where it commits, and nodes
that start in equal states stay in equal states, if and only if the
cluster agrees to begin with. -/
theorem frames_sound_iff {T : Type} (cbor : T → List UInt8) (c : Cluster) (hd : c.DistinctIds) :
    (∀ (blake3 : List UInt8 → Blake3Hash) (calls : List (FrameCall T)),
      Along (call blake3 cbor) (FrameSound blake3 cbor) c calls
        ∧ ∀ i j, c.SameState i j → (run (call blake3 cbor) c calls).SameState i j)
    ↔ c.Agrees := by
  constructor
  · intro hall
    have h := (hall (separatingHash c.nodes) [⟨[], .asserted⟩]).1
    exact agrees_of_frameSound hd _ h.1
  · intro hagrees blake3 calls
    induction calls generalizing c with
    | nil => exact ⟨trivial, fun _ _ h => h⟩
    | cons f calls ih =>
      obtain ⟨halong, hsame⟩ := ih (c.call blake3 cbor f)
        (distinctIds_call hd f) (agrees_call hd f hagrees)
      refine ⟨⟨frameSound_of_agrees hd hagrees f, halong⟩, ?_⟩
      intro i j hij
      exact hsame i j (sameState_call hd f hij)

def fourNodes (faulty₂ faulty₃ : Bool) : Cluster :=
  { nodes := [⟨⟨0⟩, 0, false⟩, ⟨⟨1⟩, 0, false⟩, ⟨⟨2⟩, 0, faulty₂⟩,
      ⟨⟨3⟩, 0, faulty₃⟩]
    frame := 0, size := show 4 < 9223372036854775808 by decide }

/-- With one of four nodes faulty a run of two frames is sound. -/
theorem frames_sound_oneFaulty :
    Along (call (fun m => BitVec.ofNat 256 (ofLeBytes m)) fun t => [t])
        (FrameSound (fun m => BitVec.ofNat 256 (ofLeBytes m)) fun t => [t])
        (fourNodes false true) [⟨[], .asserted⟩, ⟨[7], .asserted⟩]
      ∧ ∀ i j, (fourNodes false true).SameState i j →
        (run (call (fun m => BitVec.ofNat 256 (ofLeBytes m)) fun t => [t])
          (fourNodes false true)
          [⟨[], .asserted⟩, ⟨[7], .asserted⟩]).SameState i j :=
  (frames_sound_iff (fun t : UInt8 => [t]) (fourNodes false true)
    (show List.Nodup _ by decide)).2
    (Or.inr ⟨⟨0, false, by decide⟩, fun _ => by decide⟩) _ _

/-- With two of four nodes faulty the first frame fails, and leaves every
node in another state. -/
theorem failed_frame_moves_nodes :
    ¬ FrameSound (fun m => BitVec.ofNat 256 (ofLeBytes m + 1))
      (fun t : UInt8 => [t]) (fourNodes true true) ⟨[], .asserted⟩ := by
  intro h
  have hsame := h.atomic (.noSupermajority 0 2 4) (by decide)
  have hstates := congrArg (fun c : Cluster => c.nodes.map Node.state) hsame
  exact absurd hstates (by decide)

end Cluster

end OpenStandards.Lockstep
