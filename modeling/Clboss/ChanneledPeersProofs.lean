import Clboss.JsmnObjectProofs
import Clboss.NodeIdProofs

/-! # `channeled_peers` — who has a channel, by a listing

    A state counts by how it begins.  Entries that are malformed are skipped, and
    so are peers whose id is no node id; what is left is the set of nodes that the
    listing shows (`mem_channeledPeers`). -/

namespace ChanneledPeers

open Ln Jsmn

/-- `channeled_state`. -/
def channeledState (state : List UInt8) : Bool :=
  "OPENINGD".toUTF8.toList.isPrefixOf state || "DUALOPEND".toUTF8.toList.isPrefixOf state
    || "CHANNELD".toUTF8.toList.isPrefixOf state

/-- The body of the loop of `channeled_peers`. -/
def channeledPeer (c : Object) : Except Failure (Option NodeId) := do
  if !c.isObject then return none
  if !(← c.has "state") then return none
  if !(← c.has "peer_id") then return none
  let state ← c.index "state"
  let peer ← c.index "peer_id"
  if !state.isString || !peer.isString then return none
  if !channeledState (← state.str) then return none
  return NodeId.ofString (← peer.str)

/-- The loop: the entries at the positions. -/
def channeledPeersAt (channels : Object) : List ℕ → Except Failure (List NodeId)
  | []      => return []
  | i :: is => do
      let c ← channels.nth i
      let peer ← channeledPeer c
      let peers ← channeledPeersAt channels is
      return peer.toList ++ peers

/-- `channeled_peers`; the set as a list. -/
def channeledPeers (res : Object) : Except Failure (List NodeId) := do
  if !res.isObject then return []
  if !(← res.has "channels") then return []
  let channels ← res.index "channels"
  if !channels.isArray then return []
  channeledPeersAt channels (List.range (← channels.size))

/-! ## What a listing shows -/

/-- What counts as a channel: the beginnings of the states. -/
def Counts (state : List UInt8) : Prop :=
  ∃ p ∈ ["OPENINGD", "DUALOPEND", "CHANNELD"], p.toUTF8.toList <+: state

/-- The entry of a listing shows a channel with the node. -/
def Shows (c : Object) (n : NodeId) : Prop :=
  ∃ state peer st id, c.index "state" = .ok state ∧ c.index "peer_id" = .ok peer
    ∧ state.str = .ok st ∧ peer.str = .ok id ∧ Counts st ∧ NodeId.ofString id = some n

/-- Some entry of the listing does. -/
def Channeled (res : Object) (n : NodeId) : Prop :=
  ∃ channels i c, res.index "channels" = .ok channels ∧ channels.nth i = .ok c ∧ Shows c n

theorem channeledState_iff (state : List UInt8) : channeledState state = true ↔ Counts state := by
  simp only [channeledState, Counts, Bool.or_eq_true, List.isPrefixOf_iff_prefix, List.mem_cons,
    List.not_mem_nil, or_false, exists_eq_or_imp, exists_eq_left, or_assoc]

/-- With both fields of the right type only the state decides. -/
theorem channeledPeer_eq {c : Object} {state peer : Json.Value} {st id : List UInt8}
    (hstate : c.index "state" = .ok (some state)) (hpeer : c.index "peer_id" = .ok (some peer))
    (hst : Object.str (some state) = .ok st) (hid : Object.str (some peer) = .ok id) :
    channeledPeer c = .ok (if channeledState st then NodeId.ofString id else none) := by
  unfold channeledPeer Object.has
  rw [Object.isObject_of_index hstate, hstate, hpeer]
  show (if (!Object.isString (some state) || !Object.isString (some peer)) = true then _ else _
    : Except Failure (Option NodeId)) = _
  rw [Object.isString_of_str hst, Object.isString_of_str hid]
  show (Object.str (some state) >>= fun st => if (!channeledState st) = true then pure none
    else Object.str (some peer) >>= fun id => pure (NodeId.ofString id)) = _
  rw [hst, hid]
  cases hc : channeledState st <;> simp [hc, bind, Except.bind, pure, Except.pure]

/-- An entry gives the node it shows, or none. -/
theorem channeledPeer_iff {c : Object} {r : Option NodeId} (h : channeledPeer c = .ok r)
    (n : NodeId) : r = some n ↔ Shows c n := by
  constructor
  · rintro rfl
    unfold channeledPeer Object.has at h
    have hskip : ∀ {p : Prop} [Decidable p] {x : Except Failure (Option NodeId)},
        (if p then Except.ok none else x) = .ok (some n) → x = .ok (some n) := by
      intro p _ x hx
      split at hx
      · cases hx
      · exact hx
    have h := hskip h
    simp only [bind_eq_ok, pure, Except.pure, Except.ok.injEq] at h
    obtain ⟨_, ⟨state, hstate, rfl⟩, h⟩ := h
    obtain ⟨_, -, h⟩ := bind_eq_ok.mp (hskip h)
    obtain ⟨state', hstate', h⟩ := bind_eq_ok.mp (hskip h)
    obtain ⟨peer, hpeer, h⟩ := bind_eq_ok.mp h
    obtain ⟨st, hst, h⟩ := bind_eq_ok.mp (hskip h)
    have hcounts : channeledState st = true := by
      by_contra hno
      rw [Bool.not_eq_true] at hno
      rw [hno] at h
      cases h
    obtain ⟨id, hid, h⟩ := bind_eq_ok.mp (hskip h)
    exact ⟨state', peer, st, id, hstate', hpeer, hst, hid, (channeledState_iff st).mp hcounts,
      Except.ok.inj h⟩
  · rintro ⟨state, peer, st, id, hstate, hpeer, hst, hid, hcounts, hn⟩
    cases state with
    | none => cases hst
    | some state =>
        cases peer with
        | none => cases hid
        | some peer =>
            rw [channeledPeer_eq hstate hpeer hst hid, (channeledState_iff st).mpr hcounts] at h
            rw [← hn]
            exact (Except.ok.inj h).symm

theorem mem_channeledPeersAt {channels : Object} :
    ∀ {is : List ℕ} {ns : List NodeId}, channeledPeersAt channels is = .ok ns →
      ∀ n, n ∈ ns ↔ ∃ i ∈ is, ∃ c, channels.nth i = .ok c ∧ Shows c n := by
  intro is
  induction is with
  | nil =>
      intro ns h n
      cases h
      simp
  | cons i is ih =>
      intro ns h n
      obtain ⟨c, hc, h⟩ := bind_eq_ok.mp h
      obtain ⟨peer, hpeer, h⟩ := bind_eq_ok.mp h
      obtain ⟨peers, hpeers, h⟩ := bind_eq_ok.mp h
      cases h
      have hone : (∃ c', channels.nth i = .ok c' ∧ Shows c' n) ↔ Shows c n := by
        constructor
        · rintro ⟨c', hc', hn⟩
          cases hc.symm.trans hc'
          exact hn
        · exact fun hn => ⟨c, hc, hn⟩
      rw [List.mem_append, ih hpeers n, Option.mem_toList, channeledPeer_iff hpeer,
        List.exists_mem_cons_iff, hone]

/-- **WHO HAS A CHANNEL**: the set is of the nodes that the listing shows. -/
theorem mem_channeledPeers {res : Object} {ns : List NodeId} (h : channeledPeers res = .ok ns)
    (n : NodeId) : n ∈ ns ↔ Channeled res n := by
  unfold channeledPeers Object.has at h
  split at h
  · rename_i hobject
    cases h
    refine iff_of_false List.not_mem_nil ?_
    rintro ⟨channels, i, c, hchannels, -⟩
    rw [Object.isObject_of_index hchannels] at hobject
    cases hobject
  obtain ⟨has, hhas, h⟩ := bind_eq_ok.mp h
  obtain ⟨channels, hchannels, hsome⟩ := bind_eq_ok.mp hhas
  cases hsome
  have hlisted : Channeled res n ↔ ∃ i c, channels.nth i = .ok c ∧ Shows c n := by
    constructor
    · rintro ⟨channels', i, c, hchannels', hc⟩
      cases hchannels.symm.trans hchannels'
      exact ⟨i, c, hc⟩
    · exact fun ⟨i, c, hc⟩ => ⟨channels, i, c, hchannels, hc⟩
  rw [hlisted]
  -- what is no array has no entries, and neither has what is not there
  cases harray : channels.isArray with
  | false =>
      have hns : ns = [] := by
        split at h
        · cases h
          rfl
        · obtain ⟨channels', hchannels', h⟩ := bind_eq_ok.mp h
          cases hchannels.symm.trans hchannels'
          rw [harray] at h
          cases h
          rfl
      rw [hns]
      refine iff_of_false List.not_mem_nil ?_
      rintro ⟨i, c, hc, -⟩
      unfold Object.nth at hc
      split at hc
      · cases harray
      · cases hc
  | true =>
      obtain ⟨es, rfl⟩ : ∃ es, channels = some (.arr es) := by
        unfold Object.isArray at harray
        split at harray
        · exact ⟨_, rfl⟩
        · cases harray
      obtain ⟨channels', hchannels', h⟩ := bind_eq_ok.mp h
      cases hchannels.symm.trans hchannels'
      rw [mem_channeledPeersAt (show channeledPeersAt _ (List.range es.length) = .ok ns from h)]
      constructor
      · rintro ⟨i, -, c, hc⟩
        exact ⟨i, c, hc⟩
      · rintro ⟨i, c, hc, hn⟩
        refine ⟨i, List.mem_range.mpr ?_, c, hc, hn⟩
        by_contra hi
        -- beyond the end there is null, which shows nothing
        cases hc
        rw [List.getElem?_eq_none (Nat.le_of_not_lt hi)] at hn
        obtain ⟨state, -, -, -, hstate, -⟩ := hn
        cases hstate

end ChanneledPeers
