import Clboss.CreationPipelineProofs
import Mathlib.Data.List.Forall2

/-! # ChannelCreator — what the stages were told

    The stages note what they make of the answers: who has a channel, the bin of
    each address, the records, the flag of each node.  `Told` says what these
    notes have to do with the ANSWERS among the events, in the terms of the
    answers — the entries of a listing (`ChanneledPeers.Channeled`), the bin of an
    address (`BinOf`), the feature bits of a node (`Announces`) — and `told_run`
    that it holds along every run.

    The headline `funneled_run` joins it with what the stages make of their
    lists. -/

namespace CreationPipeline

open Ln Jsmn Machine

/-! ## The answers -/

/-- The bin of an address: no address is in bin 0, and the onions share the last four. -/
inductive BinOf (w : Tools) : Option IPAddrOrOnion → IPBin → Prop where
  | unknown : BinOf w none 0
  | onion {onion : List UInt8} {bin : IPBin}
      (h : bin.toNat = 2 ^ 64 - 4 + (w.tweakHash onion).toNat % 4) :
      BinOf w (some (.onion onion)) bin
  | ip (addr : IPAddr) : BinOf w (some (.ip addr)) (w.binner addr)

/-- The node has feature bit 62 or 63, both of the eighth byte from the end. -/
def Announces (res : Object) : Prop :=
  ∃ nodes n features text bytes b, res.index "nodes" = .ok nodes ∧ nodes.nth 0 = .ok n
    ∧ n.index "features" = .ok features ∧ features.str = .ok text
    ∧ Util.Str.hexread text = .ok bytes ∧ bytes.reverse[7]? = some b ∧ 64 ≤ b.toNat

/-- What an answer of `listnodes` makes of the node it was asked for. -/
inductive Flagged : Except Exc Object → Bool → Prop where
  | announces {res : Object} (h : Announces res) : Flagged (.ok res) true
  | silent {res : Object} (h : ¬ Announces res) : Flagged (.ok res) false
  | rpcError : Flagged (.error .rpcError) false

/-- Who has a channel, by the answer of `listpeerchannels`; nobody could say if it failed. -/
inductive Listed : Except Exc Object → Option (List NodeId) → Prop where
  | listed {res : Object} {ns : List NodeId} (h : ∀ n, n ∈ ns ↔ ChanneledPeers.Channeled res n) :
      Listed (.ok res) (some ns)
  | rpcError : Listed (.error .rpcError) none

/-- An answer of `listnodes` that ends the cycle. -/
def fatal : Except Exc Object → Bool
  | .ok res   =>
      match announcesSplice res with
      | .error .assertion => true
      | _                 => false
  | .error x => x ≠ .rpcError

/-- The peer that was looked up, and its address. -/
def Event.peerAnswer : Event → Option (NodeId × Option IPAddrOrOnion)
  | .peerAddr n e => n.bind fun n => (e.answer.bind Except.toOption).map (n, ·)
  | _             => none

def Event.proposalAnswer : Event → Option (Option IPAddrOrOnion)
  | .proposalAddr (.ok addr) => some addr
  | _                        => none

/-- The node that was looked up, and what was answered. -/
def Event.nodeAnswer : Event → Option (NodeId × Except Exc Object)
  | .listnodes n e => n.bind fun n => (e.answer.filter (fun r => !fatal r)).map (n, ·)
  | _              => none

/-- The preference that was last set. -/
def preferred (prefer : Bool) : List Event → Bool
  | []                 => prefer
  | .option now :: es  => preferred now es
  | _ :: es            => preferred prefer es

/-- **WHAT THE STAGES WERE TOLD**: each note is of an answer; bins and flags of all answers, in
    their order. -/
structure Told (w : Tools) (prefer : Bool) (es : List Event) (tr : List Output) : Prop where
  channeled    : ∀ c, .channeled c ∈ tr → ∃ r, .listpeerchannels r ∈ es ∧ Listed r c
  peers        : ∀ ns, .peers ns ∈ tr → .getPeers (.ok ns) ∈ es
  peerBins     : List.Forall₂ (fun a b => b.1 = a.1 ∧ BinOf w a.2 b.2)
    (es.filterMap Event.peerAnswer) (peerBins tr)
  proposalBins : List.Forall₂ (fun addr b => BinOf w addr b.2)
    (es.filterMap Event.proposalAnswer) (proposalBins tr)
  records      : ∀ rs p, .judged rs p ∈ tr →
    ∃ es₁ es₂, es = es₁ ++ .trackRecord (.ok rs) :: es₂ ∧ p = preferred prefer es₁
  flags        : List.Forall₂ (fun a f => f.1 = a.1 ∧ Flagged a.2 f.2)
    (es.filterMap Event.nodeAnswer) (flags tr)

/-! ## One answer -/

theorem binOf_getBinOf (w : Tools) (addr : Option IPAddrOrOnion) :
    BinOf w addr (w.getBinOf addr) := by
  cases addr with
  | none => exact .unknown
  | some addr =>
      cases addr with
      | ip addr => exact .ip addr
      | onion onion =>
          refine .onion ?_
          have hand : (w.tweakHash onion &&& 3).toNat = (w.tweakHash onion).toNat % 4 := by
            rw [UInt8.toNat_and]
            exact Nat.and_two_pow_sub_one_eq_mod _ 2
          show (0xFFFFFFFFFFFFFFFC + (w.tweakHash onion &&& 3).toUInt64).toNat = _
          rw [UInt64.toNat_add, UInt8.toNat_toUInt64, hand]
          simp only [UInt64.reduceToNat]
          omega

/-- The two bits are those that make their byte at least 64. -/
theorem featureBits_iff (text : List UInt8) :
    (featureBit text 62 || featureBit text 63) = true
      ↔ ∃ bytes b, Util.Str.hexread text = .ok bytes ∧ bytes.reverse[7]? = some b
          ∧ 64 ≤ b.toNat := by
  unfold featureBit
  cases hread : Util.Str.hexread text with
  | error e => simp
  | ok bytes =>
      by_cases hlen : bytes.length ≤ 7
      · have hnone : bytes.reverse[7]? = none := by
          rw [List.getElem?_eq_none_iff, List.length_reverse]
          exact hlen
        simp [hlen]
      · have hlt : bytes.length - 1 - 7 < bytes.length := by omega
        have hbyte : bytes.reverse[7]? = some bytes[bytes.length - 1 - 7] := by
          rw [List.getElem?_reverse (by omega), List.getElem?_eq_getElem]
        have hget : bytes.getD (bytes.length - 1 - 7) 0 = bytes[bytes.length - 1 - 7] := by
          rw [List.getD_eq_getElem?_getD, List.getElem?_eq_getElem hlt, Option.getD_some]
        generalize bytes[bytes.length - 1 - 7] = b at hbyte hget
-- bits 62 and 63 are the upper two of the byte
        have hbits : (b >>> 6 &&& 1 ≠ 0 ∨ b >>> 7 &&& 1 ≠ 0) ↔ 64 ≤ b.toNat := by
          have hb := b.toNat_lt
          have h6 : (b >>> 6 &&& 1).toNat = b.toNat / 64 % 2 := by
            rw [UInt8.toNat_and, UInt8.toNat_shiftRight]
            simp [Nat.shiftRight_eq_div_pow, Nat.and_one_is_mod]
          have h7 : (b >>> 7 &&& 1).toNat = b.toNat / 128 % 2 := by
            rw [UInt8.toNat_and, UInt8.toNat_shiftRight]
            simp [Nat.shiftRight_eq_div_pow, Nat.and_one_is_mod]
          rw [← UInt8.toNat_inj.ne, ← UInt8.toNat_inj.ne, h6, h7]
          simp only [UInt8.reduceToNat]
          omega
        simp only [show 62 / 8 = 7 from rfl, ge_iff_le, if_neg hlen]
        show (decide (bytes.getD (bytes.length - 1 - 7) 0 >>> 6 &&& 1 ≠ 0)
          || decide (bytes.getD (bytes.length - 1 - 7) 0 >>> 7 &&& 1 ≠ 0)) = true ↔ _
        rw [hget, Bool.or_eq_true, decide_eq_true_iff, decide_eq_true_iff, hbits]
        constructor
        · exact fun h => ⟨bytes, b, rfl, hbyte, h⟩
        · rintro ⟨_, _, hbytes, hb, h⟩
          cases hbytes
          cases hbyte.symm.trans hb
          exact h

theorem announcesSplice_of {res : Object} (h : Announces res) : announcesSplice res = .ok true := by
  obtain ⟨nodes, n, features, text, bytes, b, hnodes, hn, hfeatures, htext, hbits⟩ := h
  have hsize : ∃ k, nodes.size = .ok k ∧ k ≠ 0 := by
    unfold Object.nth at hn
    split at hn
    · rename_i es
      refine ⟨es.length, rfl, ?_⟩
      intro hzero
      rw [List.length_eq_zero_iff.mp hzero] at hn
      cases hn
      cases hfeatures
    · cases hn
  obtain ⟨k, hk, hk0⟩ := hsize
  have hsome : features.isSome = true := by
    cases features with
    | none   => cases htext
    | some _ => rfl
  unfold announcesSplice Object.has
  refine bind_eq_ok.mpr ⟨nodes, hnodes, bind_eq_ok.mpr ⟨k, hk, ?_⟩⟩
  rw [if_neg hk0]
  refine bind_eq_ok.mpr ⟨n, hn, bind_eq_ok.mpr ⟨true, ?_, ?_⟩⟩
  · exact bind_eq_ok.mpr ⟨features, hfeatures, congrArg Except.ok hsome⟩
  · refine bind_eq_ok.mpr ⟨features, hfeatures, bind_eq_ok.mpr ⟨text, htext, ?_⟩⟩
    exact congrArg Except.ok ((featureBits_iff text).mpr ⟨bytes, b, hbits⟩)

theorem announces_of {res : Object} (h : announcesSplice res = .ok true) : Announces res := by
  unfold announcesSplice at h
  obtain ⟨nodes, hnodes, h⟩ := bind_eq_ok.mp h
  obtain ⟨k, hk, h⟩ := bind_eq_ok.mp h
  split at h
  · cases h
  obtain ⟨n, hn, h⟩ := bind_eq_ok.mp h
  obtain ⟨has, -, h⟩ := bind_eq_ok.mp h
  split at h
  · cases h
  obtain ⟨features, hfeatures, h⟩ := bind_eq_ok.mp h
  obtain ⟨text, htext, h⟩ := bind_eq_ok.mp h
  obtain ⟨bytes, b, hbits⟩ := (featureBits_iff text).mp (Except.ok.inj h)
  exact ⟨nodes, n, features, text, bytes, b, hnodes, hn, hfeatures, htext, hbits⟩

/-- An answer that does not end the cycle flags its node as it should. -/
theorem flagged_of_lookup {n : NodeId} {r : Except Exc Object} {b : NodeId × Bool}
    (h : lookupSpliceable n r = .ok b) : fatal r = false ∧ b.1 = n ∧ Flagged r b.2 := by
  unfold lookupSpliceable at h
  split at h
  · rename_i res
    split at h
    · rename_i spliceable hsplice
      cases h
      refine ⟨by simp [fatal, hsplice], rfl, ?_⟩
      cases spliceable with
      | true => exact .announces (announces_of hsplice)
      | false =>
          refine .silent fun hres => ?_
          cases hsplice.symm.trans (announcesSplice_of hres)
    · rename_i hsplice
      cases h
      refine ⟨by simp [fatal, hsplice], rfl, .silent fun hres => ?_⟩
      cases hsplice.symm.trans (announcesSplice_of hres)
    · cases h
  · cases h
    exact ⟨by simp [fatal], rfl, .rpcError⟩
  · cases h

theorem fatal_of_lookup {n : NodeId} {r : Except Exc Object} {x : Exc}
    (h : lookupSpliceable n r = .error x) : fatal r = true := by
  unfold lookupSpliceable at h
  split at h
  · split at h
    · cases h
    · cases h
    · rename_i hsplice
      simp [fatal, hsplice]
  · cases h
  · rename_i x' hx
    cases x' with
    | rpcError => exact absurd rfl hx
    | failure f => rfl
    | other => rfl

/-! ## One event -/

/-- What the outputs of an event have to do with it. -/
structure Tells (w : Tools) (prefer : Bool) (e : Event) (out : List Output) : Prop where
  channeled    : ∀ c, .channeled c ∈ out → ∃ r, e = .listpeerchannels r ∧ Listed r c
  peers        : ∀ ns, .peers ns ∈ out → e = .getPeers (.ok ns)
  peerBins     : List.Forall₂ (fun a b => b.1 = a.1 ∧ BinOf w a.2 b.2) e.peerAnswer.toList
    (peerBins out)
  proposalBins : List.Forall₂ (fun addr b => BinOf w addr b.2) e.proposalAnswer.toList
    (proposalBins out)
  records      : ∀ rs p, .judged rs p ∈ out → e = .trackRecord (.ok rs) ∧ p = prefer
  flags        : List.Forall₂ (fun a f => f.1 = a.1 ∧ Flagged a.2 f.2) e.nodeAnswer.toList
    (flags out)

/-- Outputs that note no answer. -/
def Output.silent : Output → Bool
  | .channeled _ | .peers _ | .peerBin _ _ | .proposalBin _ _ | .judged _ _ | .flag _ _ => false
  | _ => true

section Silent

variable {w : Tools} {prefer : Bool} {e : Event} {out out' : List Output}

theorem filterMap_silent {β : Type} {f : Output → Option β}
    (hf : ∀ o : Output, o.silent = true → f o = none) (h : ∀ o ∈ out, o.silent = true) :
    out.filterMap f = [] :=
  List.filterMap_eq_nil_iff.mpr fun o ho => hf o (h o ho)

/-- More of these change nothing. -/
theorem Tells.append (h : Tells w prefer e out) (hsilent : ∀ o ∈ out', o.silent = true) :
    Tells w prefer e (out ++ out') := by
  have hof : ∀ o, o ∈ out ++ out' → o.silent = false → o ∈ out := by
    intro o ho hloud
    rcases List.mem_append.mp ho with ho | ho
    · exact ho
    · rw [hsilent o ho] at hloud
      cases hloud
  have hnil : ∀ {β : Type} {f : Output → Option β},
      (∀ o : Output, o.silent = true → f o = none) →
      (out ++ out').filterMap f = out.filterMap f := by
    intro β f hf
    rw [List.filterMap_append, filterMap_silent hf hsilent, List.append_nil]
  refine ⟨fun c hc => h.channeled c (hof _ hc rfl), fun ns hns => h.peers ns (hof _ hns rfl), ?_,
    ?_, fun rs p hp => h.records rs p (hof _ hp rfl), ?_⟩
  · unfold CreationPipeline.peerBins
    rw [hnil (by intro o ho; cases o <;> first | rfl | cases ho)]
    exact h.peerBins
  · unfold CreationPipeline.proposalBins
    rw [hnil (by intro o ho; cases o <;> first | rfl | cases ho)]
    exact h.proposalBins
  · unfold CreationPipeline.flags
    rw [hnil (by intro o ho; cases o <;> first | rfl | cases ho)]
    exact h.flags

/-- An event whose answer nobody notes. -/
theorem Tells.nil (hpeer : e.peerAnswer = none) (hproposal : e.proposalAnswer = none)
    (hnode : e.nodeAnswer = none) : Tells w prefer e [] := by
  refine ⟨nofun, nofun, ?_, ?_, nofun, ?_⟩
  · rw [hpeer]
    exact .nil
  · rw [hproposal]
    exact .nil
  · rw [hnode]
    exact .nil

theorem tells_silent (hpeer : e.peerAnswer = none) (hproposal : e.proposalAnswer = none)
    (hnode : e.nodeAnswer = none) (hsilent : ∀ o ∈ out, o.silent = true) :
    Tells w prefer e out :=
  (Tells.nil hpeer hproposal hnode).append hsilent

end Silent

/-- Going on after a map is silent when what comes next is. -/
theorem silent_afterMap {B : Type} {going : Stage} {next : List B → Stage × List Output}
    (h : ∀ bs, ∀ o ∈ (next bs).2, o.silent = true) (ret : Option (Except Exc (List B))) :
    ∀ o ∈ (afterMap going next ret).2, o.silent = true := by
  intro o ho
  rcases ret with _ | x | bs
  · cases ho
  · cases List.mem_singleton.mp ho
    rfl
  · exact h bs o ho

theorem silent_prioritize (l : List Proposal) : ∀ o ∈ (prioritize l).2, o.silent = true := by
  intro o ho
  unfold prioritize at ho
  split at ho
  · cases List.mem_singleton.mp ho
    rfl
  · cases ho

theorem silent_reprioritizeLoop (nodesPerBin : OrderedMap IPBin ℕ)
    (nodesPerBinsize : OrderedMap ℕ (List Proposal)) (left : List Proposal) :
    ∀ o ∈ (reprioritizeLoop nodesPerBin nodesPerBinsize left).2, o.silent = true := by
  intro o ho
  cases left with
  | cons p left => cases ho
  | nil =>
      rcases List.mem_cons.mp ho with rfl | ho
      · rfl
      · exact silent_prioritize _ o ho

theorem silent_abandon (x : Exc) : ∀ o ∈ (abandon x).2, o.silent = true := by
  intro o ho
  rcases List.mem_pair.mp ho with rfl | rfl
  · rfl
  · rfl

variable {w : Tools} {prefer : Bool} {e : Event} {out : List Output}

/-- **STEP (drop_channeled)**. -/
theorem tells_dropChanneled (proposals : List Proposal) (r : Except Exc Object) :
    Tells w prefer (.listpeerchannels r) (dropChanneled proposals r).2 := by
  have hnoted : ∀ c kept, Listed r c →
      Tells w prefer (.listpeerchannels r) [.channeled c, .kept kept] := by
    intro c kept hlisted
    have hone : Tells w prefer (.listpeerchannels r) [.channeled c] :=
      ⟨fun c' hc' => by
        cases List.mem_singleton.mp hc'
        exact ⟨r, rfl, hlisted⟩, by simp, .nil, .nil, by simp, .nil⟩
    have hquiet : ∀ o ∈ [Output.kept kept], o.silent = true := by simp [Output.silent]
    exact hone.append hquiet
  unfold dropChanneled
  split
  · rename_i res
    split
    · rename_i ns hns
      exact hnoted _ _ (.listed (ChanneledPeers.mem_channeledPeers hns))
    · exact tells_silent rfl rfl rfl (silent_abandon _)
  · exact hnoted _ _ .rpcError
  · exact tells_silent rfl rfl rfl (silent_abandon _)

/-- **STEP (core_run)**, of the Reprioritizer. -/
theorem tells_peerAddr {map map' : EvMap.State NodeId (NodeId × IPBin) Exc}
    {e : EvMap.Event (Option IPAddrOrOnion) Exc} {fin : Option (ℕ × Except Exc (NodeId × IPBin))}
    {ret : Option (Except Exc (List (NodeId × IPBin)))}
    (hfeed : map.feed w.updateBin e = some (map', fin, ret)) :
    Tells w prefer (.peerAddr (map.asked e) e) (learned (fun b => .peerBin b.1 b.2) fin) := by
  obtain ⟨hnone, hsome⟩ := EvMap.feed_answer hfeed
  cases hanswer : e.answer with
  | none =>
      have hpeer : Event.peerAnswer (.peerAddr (map.asked e) e) = none := by
        simp [Event.peerAnswer, hanswer]
      refine tells_silent hpeer rfl rfl ?_
      rcases fin with _ | ⟨i, r⟩
      · simp [learned]
      · obtain ⟨x, rfl⟩ := hnone hanswer i r rfl
        simp [learned, Output.silent]
  | some y =>
      obtain ⟨i, n, hn, rfl⟩ := hsome y hanswer
      have hpeer : Event.peerAnswer (.peerAddr (map.asked e) e) = y.toOption.map (n, ·) := by
        simp [Event.peerAnswer, hanswer, hn]
      cases y with
      | error x =>
          refine tells_silent (hpeer.trans rfl) rfl rfl ?_
          simp [learned, Tools.updateBin, Except.map, Output.silent]
      | ok addr =>
          refine ⟨by simp [learned, Tools.updateBin, Except.map],
            by simp [learned, Tools.updateBin, Except.map], ?_, .nil,
            by simp [learned, Tools.updateBin, Except.map], .nil⟩
          rw [hpeer]
          exact .cons ⟨rfl, binOf_getBinOf w addr⟩ .nil

/-- **STEP (get_spliceable_nodes)**. -/
theorem tells_listnodes {map map' : EvMap.State NodeId (NodeId × Bool) Exc}
    {e : EvMap.Event Object Exc} {fin : Option (ℕ × Except Exc (NodeId × Bool))}
    {ret : Option (Except Exc (List (NodeId × Bool)))}
    (hfeed : map.feed lookupSpliceable e = some (map', fin, ret)) :
    Tells w prefer (.listnodes (map.asked e) e) (learned (fun f => .flag f.1 f.2) fin) := by
  obtain ⟨hnone, hsome⟩ := EvMap.feed_answer hfeed
  cases hanswer : e.answer with
  | none =>
      have hnode : Event.nodeAnswer (.listnodes (map.asked e) e) = none := by
        simp [Event.nodeAnswer, hanswer]
      refine tells_silent rfl rfl hnode ?_
      rcases fin with _ | ⟨i, r⟩
      · simp [learned]
      · obtain ⟨x, rfl⟩ := hnone hanswer i r rfl
        simp [learned, Output.silent]
  | some y =>
      obtain ⟨i, n, hn, rfl⟩ := hsome y hanswer
      cases hlookup : lookupSpliceable n y with
      | error x =>
          have hnode : Event.nodeAnswer (.listnodes (map.asked e) e) = none := by
            simp [Event.nodeAnswer, hanswer, fatal_of_lookup hlookup]
          refine tells_silent rfl rfl hnode ?_
          simp [learned, Output.silent]
      | ok b =>
          obtain ⟨hfatal, hflagged⟩ := flagged_of_lookup hlookup
          have hnode : Event.nodeAnswer (.listnodes (map.asked e) e) = some (n, y) := by
            simp [Event.nodeAnswer, hanswer, hn, hfatal]
          refine ⟨by simp [learned], by simp [learned], .nil, .nil, by simp [learned], ?_⟩
          rw [hnode]
          exact .cons hflagged .nil

/-- **STEP**, of the stages. -/
theorem tells_step {stage : Stage} {p : Stage × List Output}
    (hs : stage.step w prefer e = some p) : Tells w prefer e p.2 := by
  unfold Stage.step at hs
  split at hs
  · cases hs
    exact tells_dropChanneled _ _
  · obtain ⟨⟨map', fin, ret⟩, hfeed, hs⟩ := Option.bind_eq_some_iff.mp hs
    cases hs
    refine tells_silent rfl rfl rfl fun o ho => ?_
    rcases List.mem_append.mp ho with ho | ho
    · rcases fin with _ | ⟨i, x | b⟩
      · cases ho
      · cases List.mem_singleton.mp ho
        rfl
      · cases List.mem_singleton.mp ho
        rfl
    · refine silent_afterMap (fun bs o ho => ?_) ret o ho
      cases List.mem_singleton.mp ho
      rfl
  · split at hs
    · cases hs
      exact ⟨by simp, fun ns hns => by
        cases List.mem_singleton.mp hns
        rfl, .nil, .nil, by simp, .nil⟩
    · cases hs
      exact tells_silent rfl rfl rfl (silent_abandon _)
  · split at hs
    · rename_i hasked
      obtain ⟨⟨map', fin, ret⟩, hfeed, hs⟩ := Option.bind_eq_some_iff.mp hs
      cases hs
      rw [← hasked]
      exact (tells_peerAddr hfeed).append
        (silent_afterMap (fun _ => silent_reprioritizeLoop _ _ _) ret)
    · cases hs
  · rename_i nodesPerBin nodesPerBinsize q left r
    split at hs
    · rename_i addr
      cases hs
      have hone : Tells w prefer (.proposalAddr (.ok addr)) [.proposalBin q (w.getBinOf addr)] :=
        ⟨by simp, by simp, .nil, .cons (binOf_getBinOf w addr) .nil, by simp, .nil⟩
      exact hone.append (silent_reprioritizeLoop _ _ left)
    · cases hs
      exact tells_silent rfl rfl rfl (silent_abandon _)
  · split at hs
    · rename_i rs
      cases hs
      refine ⟨by simp [judge], by simp [judge], .nil, .nil, fun rs' p' hp => ?_, .nil⟩
      cases List.mem_singleton.mp hp
      exact ⟨rfl, rfl⟩
    · cases hs
      exact tells_silent rfl rfl rfl (silent_abandon _)
  · split at hs
    · rename_i hasked
      obtain ⟨⟨map', fin, ret⟩, hfeed, hs⟩ := Option.bind_eq_some_iff.mp hs
      cases hs
      rw [← hasked]
      refine (tells_listnodes hfeed).append (silent_afterMap (fun bs o ho => ?_) ret)
      cases List.mem_singleton.mp ho
      rfl
    · cases hs
  · cases hs

/-! ## Runs -/

theorem preferred_append (prefer : Bool) (es es' : List Event) :
    preferred prefer (es ++ es') = preferred (preferred prefer es) es' := by
  induction es generalizing prefer with
  | nil => rfl
  | cons e es ih => cases e <;> exact ih _

theorem Told.nil (w : Tools) (prefer : Bool) : Told w prefer [] [] :=
  ⟨nofun, nofun, .nil, .nil, nofun, .nil⟩

/-- One more event. -/
theorem Told.snoc {prefer₀ : Bool} {es : List Event} {tr : List Output} (h : Told w prefer₀ es tr)
    (he : Tells w (preferred prefer₀ es) e out) : Told w prefer₀ (es ++ [e]) (tr ++ out) := by
  have hfilterMap : ∀ {β : Type} (f : Event → Option β),
      (es ++ [e]).filterMap f = es.filterMap f ++ (f e).toList := by
    intro β f
    rw [List.filterMap_append]
    cases hf : f e <;> simp [hf]
  refine ⟨fun c hc => ?_, fun ns hns => ?_, ?_, ?_, fun rs p hp => ?_, ?_⟩
  · rcases List.mem_append.mp hc with hc | hc
    · obtain ⟨r, hr, hlisted⟩ := h.channeled c hc
      exact ⟨r, List.mem_append_left _ hr, hlisted⟩
    · obtain ⟨r, rfl, hlisted⟩ := he.channeled c hc
      exact ⟨r, List.mem_append_right _ (List.mem_singleton_self _), hlisted⟩
  · rcases List.mem_append.mp hns with hns | hns
    · exact List.mem_append_left _ (h.peers ns hns)
    · rw [he.peers ns hns]
      exact List.mem_append_right _ (List.mem_singleton_self _)
  · rw [hfilterMap, CreationPipeline.peerBins, List.filterMap_append]
    exact List.rel_append h.peerBins he.peerBins
  · rw [hfilterMap, CreationPipeline.proposalBins, List.filterMap_append]
    exact List.rel_append h.proposalBins he.proposalBins
  · rcases List.mem_append.mp hp with hp | hp
    · obtain ⟨es₁, es₂, rfl, hprefer⟩ := h.records rs p hp
      exact ⟨es₁, es₂ ++ [e], by simp, hprefer⟩
    · obtain ⟨rfl, rfl⟩ := he.records rs p hp
      exact ⟨es, [], rfl, rfl⟩
  · rw [hfilterMap, CreationPipeline.flags, List.filterMap_append]
    exact List.rel_append h.flags he.flags

/-- **RUN**: the stages note what they were told, whatever the order of the answers. -/
theorem told_run {candidates : List Proposal} {s : State} {es : List Event} {tr : List Output}
    (h : run (step w) (start prefer candidates) es = some (s, tr)) :
    Told w prefer es tr ∧ s.preferSpliceable = preferred prefer es := by
  refine run_invariant (P := fun _ _ => True)
    (I := fun es tr s => Told w prefer es tr ∧ s.preferSpliceable = preferred prefer es)
    ⟨Told.nil w prefer, rfl⟩ ?_ (along_true _ _) h
  rintro es tr s e s' out ⟨htold, hprefer⟩ - hs
  unfold step at hs
  rw [preferred_append]
  split at hs
  · cases hs
    exact ⟨htold.snoc (Tells.nil rfl rfl rfl), rfl⟩
  · rename_i hoption
    obtain ⟨p, hp, hs⟩ := Option.bind_eq_some_iff.mp hs
    cases hs
    rw [hprefer] at hp
    refine ⟨htold.snoc (tells_step hp), hprefer.trans ?_⟩
    cases e with
    | option now => exact absurd rfl (hoption now)
    | _          => rfl

/-- **HEADLINE**: the list that reaches the planner is what the four stages are to make of
    the candidates, by what they were told; a cycle in which no lookup fails does not end
    without it, and one that has not ended awaits an answer. -/
theorem funneled_run {candidates : List Proposal} {s : State} {es : List Event}
    {tr : List Output} (h : run (step w) (start prefer candidates) es = some (s, tr)) :
    (∀ planned, .planned planned ∈ tr → Funneled candidates tr planned)
      ∧ Told w prefer es tr
      ∧ (s.stage = .ended → (∃ planned, .planned planned ∈ tr) ∨ ∃ x, .failed x ∈ tr)
      ∧ (s.stage ≠ .ended → ∃ e, (s.stage.step w s.preferSpliceable e).isSome) := by
  obtain ⟨hfunneled, hends, hgoes⟩ := planned_run h
  exact ⟨hfunneled, (told_run h).1, hends, hgoes⟩

/-! ### A cycle

    Four candidates, of which the second has a channel.  The first and the last share
    their subnet, the third the bin of the only peer. -/

def node (i : UInt8) : NodeId := ⟨2 :: List.replicate 32 i, by simp, .inl rfl⟩

def Output.ofPlan : Output → Option (List Proposal)
  | .planned proposals => some proposals
  | _                  => none

def tools : Tools := ⟨IPBinnerBySubnet.getBinOf, fun _ => 0, .insertion⟩

/-- What `listnodes` says of a node with these features. -/
def nodesOf (features : String) : Object :=
  some (.obj [("nodes".toUTF8.toList,
    .arr [.obj [("features".toUTF8.toList, .str features.toUTF8.toList)]])])

def cycle : List Event :=
  let subnet := some (IPAddrOrOnion.ip ⟨true, [10, 2, 0, 1]⟩)
  [.listpeerchannels (.ok (some (.obj [("channels".toUTF8.toList,
      .arr [.obj [("state".toUTF8.toList, .str "CHANNELD_NORMAL".toUTF8.toList),
        ("peer_id".toUTF8.toList, .str (node 2).toString)]])]))),
    .dowser .run, .dowser .resume, .dowser .resume, .dowser .resume,
    .dowser (.start 2 (.finishes (.ok ⟨2000⟩))), .dowser (.start 1 (.finishes (.ok ⟨3000⟩))),
    .dowser (.start 0 (.finishes (.ok ⟨1000⟩))),
    .getPeers (.ok [node 5]),
    .peerAddr none .run, .peerAddr none .resume, .peerAddr (node 5) (.start 0 .later),
    .peerAddr (node 5) (.finish 0 (.ok none)),
    .proposalAddr (.ok none), .proposalAddr (.ok subnet), .proposalAddr (.ok subnet),
    .trackRecord (.ok (OrderedMap.empty.assign (node 4) .underperformer)),
    .listnodes none .run, .listnodes none .resume, .listnodes none .resume,
    .listnodes (node 1) (.start 1 (.finishes (.ok (nodesOf "4000000000000000")))),
    .listnodes (node 3) (.start 0 (.finishes (.ok (nodesOf "80"))))]

/-- The underperformer comes first out of the Reprioritizer, and last to the planner. -/
theorem funneled_run_four : ∃ s tr,
    run (step tools) (start true [(node 1, node 9), (node 2, node 9), (node 3, node 8),
        (node 4, node 8)]) cycle = some (s, tr)
      ∧ .planned [(node 1, node 9), (node 3, node 8), (node 4, node 8)] ∈ tr
      ∧ Funneled [(node 1, node 9), (node 2, node 9), (node 3, node 8), (node 4, node 8)] tr
        [(node 1, node 9), (node 3, node 8), (node 4, node 8)]
      ∧ Told tools true cycle tr := by
  have hplan : (run (step tools) (start true [(node 1, node 9), (node 2, node 9),
        (node 3, node 8), (node 4, node 8)]) cycle).map (fun p => p.2.filterMap Output.ofPlan)
      = some [[(node 1, node 9), (node 3, node 8), (node 4, node 8)]] := by decide +kernel
  obtain ⟨⟨s, tr⟩, hrun, htr⟩ := Option.map_eq_some_iff.mp hplan
  have hmem : .planned [(node 1, node 9), (node 3, node 8), (node 4, node 8)] ∈ tr := by
    have hone := List.mem_singleton_self [(node 1, node 9), (node 3, node 8), (node 4, node 8)]
    rw [← htr] at hone
    obtain ⟨o, ho, heq⟩ := List.mem_filterMap.mp hone
    cases o with
    | planned proposals =>
        cases heq
        exact ho
    | _ => cases heq
  obtain ⟨hfunneled, htold, -⟩ := funneled_run hrun
  exact ⟨s, tr, hrun, hmem, hfunneled _ hmem, htold⟩

end CreationPipeline
