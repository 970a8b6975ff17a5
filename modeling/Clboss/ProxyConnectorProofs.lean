import Clboss.AwaitProofs
import Clboss.SegmentProofs
import Mathlib.Data.Int.Notation

/-! # `Net::ProxyConnector` — a connection through a SOCKS5 proxy

    `connect` speaks to the proxy before anybody else may use the socket.  It
    writes a greeting and a request, and reads a choice of method and a reply
    whose length depends on what is in it.  What the proxy sends may come in any
    pieces, and may be anything.

    The socket is handed out exactly when what came begins with an acceptance and
    a well-formed reply, and then NOTHING after the reply has been read: what the
    far end says first is not lost (`connect_iff`).  The request is not sent
    before the proxy has chosen the method, and a server that reads it finds the
    port and what was asked for, but of a name only 255 bytes (`decode_request`). -/

namespace ProxyConnector

open Segments Await

/-! ## The socket -/

/-- The `errno`s that are set. -/
inductive Errno where
  | EPROTO | EACCES | ENETDOWN | ENETUNREACH | EHOSTUNREACH | ECONNREFUSED | ETIMEDOUT | EINVAL
  | EAFNOSUPPORT
deriving DecidableEq

/-- Why the socket is closed again; no `errno` is set where reading or writing fails. -/
inductive Failure where
  | io
  | errno (e : Option Errno)
deriving DecidableEq

/-- The pieces that come, the portions that can be written, and what was written. -/
structure Conn where
  incoming : List (List UInt8)
  portions : List ℕ
  sent     : List UInt8

abbrev Sock (α : Type) := Io Conn Empty Failure α

/-- `writebuff`. -/
def writebuff (data : List UInt8) : Sock Unit := fun w =>
  let r := writeAll w.store.portions data
  (if r.1 then .ok () else .error .io,
    { w with store := { w.store with portions := r.2.2, sent := w.store.sent ++ r.2.1 } })

/-- `readbuff`, into a buffer of this size. -/
def readbuff (size : ℕ) : Sock (List UInt8) := fun w =>
  let r := readAll size w.store.incoming
  (match r.1 with
    | some data => .ok data
    | none      => .error .io,
    { w with store := { w.store with incoming := r.2 } })

/-! ## The client -/

inductive HostType where
  | IPv4 | IPv6 | Name
deriving DecidableEq

/-- What `getaddrinfo` finds for a numeric host. -/
inductive Numeric where
  | inet (a : Vector UInt8 4)
  | inet6 (a : Vector UInt8 16)

/-- `analyze_host`; the length of a name goes in front of it. -/
def analyzeHost (lookup : List UInt8 → Option Numeric) (host : List UInt8) :
    HostType × List UInt8 :=
  match lookup host with
  | some (.inet a)  => (.IPv4, a.toList)
  | some (.inet6 a) => (.IPv6, a.toList)
  | none            =>
      let size := Nat.min (host.length + 1) 256
      (.Name, UInt8.ofNat (size - 1) :: host.take (size - 1))

/-- `to_errno`. -/
def toErrno (socks5Err : UInt8) : Option Errno :=
  match socks5Err.toNat with
  | 0 => none
  | 1 => some .ENETDOWN
  | 2 => some .EACCES
  | 3 => some .ENETUNREACH
  | 4 => some .EHOSTUNREACH
  | 5 => some .ECONNREFUSED
  | 6 => some .ETIMEDOUT
  | 7 => some .EINVAL
  | 8 => some .EAFNOSUPPORT
  | _ => some .EPROTO

def greeting : List UInt8 := [5, 1, 0]

def HostType.atyp : HostType → UInt8
  | .IPv4 => 1
  | .Name => 3
  | .IPv6 => 4

/-- The request; of the port there are the low 16 bits. -/
def request (lookup : List UInt8 → Option Numeric) (host : List UInt8) (port : ℤ) : List UInt8 :=
  let h := analyzeHost lookup host
  [5, 1, 0, h.1.atyp] ++ h.2
    ++ [UInt8.ofNat (port / 256 % 256).toNat, UInt8.ofNat (port % 256).toNat]

/-- The method that the server selects. -/
def readMethod : Sock Unit := do
  let buffer ← readbuff 2
  if buffer.getD 0 0 ≠ 5 then Io.throw (.errno (some .EPROTO))
  else if buffer.getD 1 0 ≠ 0 then Io.throw (.errno (some .EACCES))
  else return ()

/-- The size of `BND.ADDR`. -/
def boundSize (atyp : UInt8) : Sock ℕ :=
  if atyp = 1 then pure 4
  else if atyp = 3 then do
    let buffer ← readbuff 1
    return (buffer.getD 0 0).toNat
  else if atyp = 4 then pure 16
  else Io.throw (.errno (some .EPROTO))

/-- The response. -/
def readReply : Sock Unit := do
  let buffer ← readbuff 4
  if buffer.getD 0 0 ≠ 5 ∨ buffer.getD 2 0 ≠ 0 then Io.throw (.errno (some .EPROTO))
  else if buffer.getD 1 0 ≠ 0 then Io.throw (.errno (toErrno (buffer.getD 1 0)))
  else do
    let size ← boundSize (buffer.getD 3 0)
    let _ ← readbuff size
    let _ ← readbuff 2
    return ()

/-- `connect`, once there is a socket to the proxy. -/
def connect (lookup : List UInt8 → Option Numeric) (host : List UInt8) (port : ℤ) : Sock Unit := do
  writebuff greeting
  readMethod
  writebuff (request lookup host port)
  readReply

/-! ## The protocol -/

/-- A reply that grants the connection. -/
inductive Reply : List UInt8 → Prop
  | ipv4 (addr port : List UInt8) (haddr : addr.length = 4) (hport : port.length = 2) :
      Reply ([5, 0, 0, 1] ++ (addr ++ port))
  | name (n : UInt8) (addr port : List UInt8) (hn : n ≠ 0) (haddr : addr.length = n.toNat)
      (hport : port.length = 2) : Reply ([5, 0, 0, 3] ++ ([n] ++ (addr ++ port)))
  | ipv6 (addr port : List UInt8) (haddr : addr.length = 16) (hport : port.length = 2) :
      Reply ([5, 0, 0, 4] ++ (addr ++ port))

/-! ## Reading -/

section Reading

variable {w w' : World Conn Empty}

/-- The same, with these pieces to come. -/
def feed (w : World Conn Empty) (pieces : List (List UInt8)) : World Conn Empty :=
  { w with store := { w.store with incoming := pieces } }

/-- All that is still to come. -/
def coming (w : World Conn Empty) : List UInt8 := w.store.incoming.flatten

theorem readbuff_of_coming {data rest : List UInt8} (hne : data ≠ [])
    (h : coming w = data ++ rest) :
    ∃ ps, readbuff data.length w = (.ok data, feed w ps) ∧ coming (feed w ps) = rest := by
  obtain ⟨hread, hleft⟩ := readAll_append hne h
  refine ⟨_, ?_, hleft⟩
  unfold readbuff
  simp only [hread]
  rfl

theorem coming_of_readbuff {size : ℕ} {data : List UInt8}
    (h : readbuff size w = (.ok data, w')) :
    0 < size ∧ data.length = size ∧ (∃ ps, w' = feed w ps) ∧ coming w = data ++ coming w' := by
  cases hread : (readAll size w.store.incoming).1 with
  | none =>
      simp only [readbuff, hread] at h
      cases (Prod.mk.inj h).1
  | some data' =>
      simp only [readbuff, hread] at h
      obtain ⟨hdata, rfl⟩ := Prod.mk.inj h
      cases hdata
      obtain ⟨hpos, hlen, hcoming⟩ := readAll_eq_some hread
      exact ⟨hpos, hlen, ⟨_, rfl⟩, hcoming⟩

theorem readMethod_of_coming {rest : List UInt8} (h : coming w = [5, 0] ++ rest) :
    ∃ ps, readMethod w = (.ok (), feed w ps) ∧ coming (feed w ps) = rest := by
  obtain ⟨ps, hread, hrest⟩ := readbuff_of_coming (List.cons_ne_nil _ _) h
  exact ⟨ps, Io.bind_eq hread, hrest⟩

theorem coming_of_readMethod (h : readMethod w = (.ok (), w')) :
    (∃ ps, w' = feed w ps) ∧ coming w = [5, 0] ++ coming w' := by
  obtain ⟨data, u, hread, h⟩ := Io.of_bind_eq h
  obtain ⟨-, hlen, hfeed, hcoming⟩ := coming_of_readbuff hread
  match data, hlen with
  | [a, b], _ =>
      by_cases ha : a = 5
      · by_cases hb : b = 0
        · simp only [List.getD_cons_zero, List.getD_cons_succ, ha, hb, ne_eq, not_true_eq_false,
            if_false] at h
          cases (Prod.mk.inj h).2
          rw [hcoming, ha, hb]
          exact ⟨hfeed, rfl⟩
        · simp only [List.getD_cons_zero, List.getD_cons_succ, ha, hb, ne_eq, not_true_eq_false,
            if_false, not_false_eq_true, if_true] at h
          cases (Prod.mk.inj h).1
      · simp only [List.getD_cons_zero, ha, ne_eq, not_false_eq_true, if_true] at h
        cases (Prod.mk.inj h).1

/-- The address and the port, after the size. -/
theorem readBound_of_coming {size : ℕ} {addr port rest : List UInt8} (hsize : 0 < size)
    (haddr : addr.length = size) (hport : port.length = 2)
    (h : coming w = addr ++ (port ++ rest)) :
    ∃ ps, ((do
        let _ ← readbuff size
        let _ ← readbuff 2
        return ()) : Sock Unit) w = (.ok (), feed w ps) ∧ coming (feed w ps) = rest := by
  subst haddr
  obtain ⟨ps, hread, hrest⟩ := readbuff_of_coming (List.length_pos_iff.mp hsize) h
  obtain ⟨ps', hread', hrest'⟩ :=
    readbuff_of_coming (List.length_pos_iff.mp (by rw [hport]; decide)) hrest
  rw [hport] at hread'
  exact ⟨ps', (Io.bind_eq hread).trans (Io.bind_eq hread'), hrest'⟩

theorem coming_of_readBound {size : ℕ}
    (h : ((do
        let _ ← readbuff size
        let _ ← readbuff 2
        return ()) : Sock Unit) w = (.ok (), w')) :
    0 < size ∧ (∃ ps, w' = feed w ps) ∧ ∃ addr port, addr.length = size ∧ port.length = 2
      ∧ coming w = addr ++ (port ++ coming w') := by
  obtain ⟨addr, u, hread, h⟩ := Io.of_bind_eq h
  obtain ⟨hpos, hlen, ⟨ps, rfl⟩, hcoming⟩ := coming_of_readbuff hread
  obtain ⟨port, u', hread', h⟩ := Io.of_bind_eq h
  obtain ⟨-, hlen', ⟨ps', rfl⟩, hcoming'⟩ := coming_of_readbuff hread'
  cases (Prod.mk.inj h).2
  exact ⟨hpos, ⟨ps', rfl⟩, addr, port, hlen, hlen', by rw [hcoming, hcoming']⟩

/-- **SPEC**: a reply is read to its end and no further. -/
theorem readReply_of_coming {reply rest : List UInt8} (hreply : Reply reply)
    (h : coming w = reply ++ rest) :
    ∃ ps, readReply w = (.ok (), feed w ps) ∧ coming (feed w ps) = rest := by
  cases hreply with
  | ipv4 addr port haddr hport =>
      rw [List.append_assoc, List.append_assoc] at h
      obtain ⟨ps, hread, hrest⟩ := readbuff_of_coming (List.cons_ne_nil _ _) h
      obtain ⟨ps', hbound, hrest'⟩ := readBound_of_coming (by decide) haddr hport hrest
      exact ⟨ps', (Io.bind_eq hread).trans hbound, hrest'⟩
  | ipv6 addr port haddr hport =>
      rw [List.append_assoc, List.append_assoc] at h
      obtain ⟨ps, hread, hrest⟩ := readbuff_of_coming (List.cons_ne_nil _ _) h
      obtain ⟨ps', hbound, hrest'⟩ := readBound_of_coming (by decide) haddr hport hrest
      exact ⟨ps', (Io.bind_eq hread).trans hbound, hrest'⟩
  | name n addr port hn haddr hport =>
      rw [List.append_assoc, List.append_assoc, List.append_assoc] at h
      obtain ⟨ps, hread, hrest⟩ := readbuff_of_coming (List.cons_ne_nil _ _) h
      obtain ⟨ps₁, hread₁, hrest₁⟩ := readbuff_of_coming (List.cons_ne_nil _ _) hrest
      have hpos : 0 < n.toNat := Nat.pos_of_ne_zero (fun h0 => hn (UInt8.toNat_inj.mp h0))
      obtain ⟨ps', hbound, hrest'⟩ := readBound_of_coming hpos haddr hport hrest₁
      refine ⟨ps', (Io.bind_eq hread).trans ?_, hrest'⟩
      have hsize : boundSize 3 (feed w ps) = (.ok n.toNat, feed (feed w ps) ps₁) :=
        Io.bind_eq hread₁
      exact (Io.bind_eq hsize).trans hbound

/-- **SPEC**: and nothing else is taken for one. -/
theorem coming_of_readReply (h : readReply w = (.ok (), w')) :
    (∃ ps, w' = feed w ps) ∧ ∃ reply, Reply reply ∧ coming w = reply ++ coming w' := by
  obtain ⟨data, u, hread, h⟩ := Io.of_bind_eq h
  obtain ⟨-, hlen, ⟨ps, rfl⟩, hcoming⟩ := coming_of_readbuff hread
  match data, hlen with
  | [ver, rep, rsv, atyp], _ =>
      simp only [List.getD_cons_zero, List.getD_cons_succ] at h
      by_cases hver : ver ≠ 5 ∨ rsv ≠ 0
      · rw [if_pos hver] at h
        cases (Prod.mk.inj h).1
      · rw [if_neg hver] at h
        by_cases hrep : rep ≠ 0
        · rw [if_pos hrep] at h
          cases (Prod.mk.inj h).1
        · rw [if_neg hrep] at h
          have hver₁ : ver = 5 := by
            by_contra hne
            exact hver (.inl hne)
          have hrsv : rsv = 0 := by
            by_contra hne
            exact hver (.inr hne)
          have hrep₁ : rep = 0 := by
            by_contra hne
            exact hrep hne
          obtain ⟨size, u, hsize, h⟩ := Io.of_bind_eq h
          obtain ⟨hpos, ⟨ps', hps'⟩, addr, port, haddr, hport, hrest⟩ := coming_of_readBound h
          unfold boundSize at hsize
          split at hsize
          · rename_i hatyp
            obtain ⟨hs, rfl⟩ := Prod.mk.inj hsize
            cases hs
            refine ⟨⟨ps', hps'⟩, _, .ipv4 addr port haddr hport, ?_⟩
            rw [hcoming, hrest, hver₁, hrsv, hrep₁, hatyp, List.append_assoc, List.append_assoc]
          · split at hsize
            · rename_i hatyp
              obtain ⟨data', u', hread', hsize⟩ := Io.of_bind_eq hsize
              obtain ⟨-, hlen', ⟨ps₁, rfl⟩, hcoming'⟩ := coming_of_readbuff hread'
              obtain ⟨n, rfl⟩ := List.length_eq_one_iff.mp hlen'
              obtain ⟨hs, rfl⟩ := Prod.mk.inj hsize
              cases hs
              have hn : n ≠ 0 := by
                rintro rfl
                exact absurd hpos (by decide)
              refine ⟨⟨ps', hps'⟩, _, .name n addr port hn haddr hport, ?_⟩
              rw [hcoming, hcoming', hrest, hver₁, hrsv, hrep₁, hatyp, List.append_assoc,
                List.append_assoc, List.append_assoc]
            · split at hsize
              · rename_i hatyp
                obtain ⟨hs, rfl⟩ := Prod.mk.inj hsize
                cases hs
                refine ⟨⟨ps', hps'⟩, _, .ipv6 addr port haddr hport, ?_⟩
                rw [hcoming, hrest, hver₁, hrsv, hrep₁, hatyp, List.append_assoc,
                  List.append_assoc]
              · cases (Prod.mk.inj hsize).1

end Reading

/-! ## The connection -/

section Connect

variable (lookup : List UInt8 → Option Numeric) (host : List UInt8) (port : ℤ)
variable {w w' : World Conn Empty}

/-- The same, after these writes. -/
def wrote (w : World Conn Empty) (data : List UInt8) : World Conn Empty :=
  { w with store := { w.store with
      portions := (writeAll w.store.portions data).2.2
      sent := w.store.sent ++ (writeAll w.store.portions data).2.1 } }

theorem writebuff_eq (data : List UInt8) (w : World Conn Empty) :
    writebuff data w
      = (if (writeAll w.store.portions data).1 then .ok () else .error .io, wrote w data) := rfl

/-- The greeting and then the request can be written in these portions. -/
def Writes (portions : List ℕ) (request : List UInt8) : Prop :=
  (writeAll portions greeting).1 = true
    ∧ (writeAll (writeAll portions greeting).2.2 request).1 = true

/-- **SPEC**: `connect` returns after all four steps. -/
theorem connect_ok_iff :
    connect lookup host port w = (.ok (), w') ↔
      ∃ u, (writeAll w.store.portions greeting).1 = true
        ∧ readMethod (wrote w greeting) = (.ok (), u)
        ∧ (writeAll u.store.portions (request lookup host port)).1 = true
        ∧ readReply (wrote u (request lookup host port)) = (.ok (), w') := by
  constructor
  · intro h
    obtain ⟨_, u₁, hwrite, h⟩ := Io.of_bind_eq h
    obtain ⟨_, u₂, hmethod, h⟩ := Io.of_bind_eq h
    obtain ⟨_, u₃, hwrite', h⟩ := Io.of_bind_eq h
    rw [writebuff_eq] at hwrite hwrite'
    obtain ⟨hok, rfl⟩ := Prod.mk.inj hwrite
    obtain ⟨hok', rfl⟩ := Prod.mk.inj hwrite'
    refine ⟨u₂, ?_, hmethod, ?_, h⟩
    · by_contra hne
      rw [if_neg hne] at hok
      cases hok
    · by_contra hne
      rw [if_neg hne] at hok'
      cases hok'
  · rintro ⟨u, hwrite, hmethod, hwrite', hreply⟩
    have hfirst : writebuff greeting w = (.ok (), wrote w greeting) := by
      rw [writebuff_eq, if_pos hwrite]
    have hsecond : writebuff (request lookup host port) u
        = (.ok (), wrote u (request lookup host port)) := by
      rw [writebuff_eq, if_pos hwrite']
    exact (Io.bind_eq hfirst).trans ((Io.bind_eq hmethod).trans
      ((Io.bind_eq hsecond).trans hreply))

/-- **HEADLINE**: the socket is handed out exactly when the writes succeed and what comes
    begins with the method and a well-formed reply, wherever its pieces end; then the
    greeting and the request were sent, and what comes after the reply is still to come. -/
theorem connect_iff :
    ((∃ u, connect lookup host port w = (.ok (), u)) ↔
      Writes w.store.portions (request lookup host port)
        ∧ ∃ reply rest, Reply reply ∧ coming w = [5, 0] ++ (reply ++ rest))
    ∧ ∀ u, connect lookup host port w = (.ok (), u) →
        u.store.sent = w.store.sent ++ greeting ++ request lookup host port
          ∧ ∃ reply, Reply reply ∧ coming w = [5, 0] ++ (reply ++ coming u) := by
  have hafter : ∀ u, connect lookup host port w = (.ok (), u) →
      Writes w.store.portions (request lookup host port)
        ∧ u.store.sent = w.store.sent ++ greeting ++ request lookup host port
        ∧ ∃ reply, Reply reply ∧ coming w = [5, 0] ++ (reply ++ coming u) := by
    intro u h
    obtain ⟨v, hwrite, hmethod, hwrite', hreply⟩ := (connect_ok_iff lookup host port).mp h
    obtain ⟨⟨ps, rfl⟩, hcoming⟩ := coming_of_readMethod hmethod
    obtain ⟨⟨ps', rfl⟩, reply, hgrant, hcoming'⟩ := coming_of_readReply hreply
    refine ⟨⟨hwrite, hwrite'⟩, ?_, reply, hgrant, ?_⟩
    · show w.store.sent ++ (writeAll w.store.portions greeting).2.1
        ++ (writeAll (writeAll w.store.portions greeting).2.2 (request lookup host port)).2.1 = _
      rw [(writeAll_sent _ _).2 hwrite]
      exact congrArg (_ ++ ·) ((writeAll_sent _ _).2 hwrite')
    · rw [← hcoming']
      exact hcoming
  refine ⟨⟨?_, ?_⟩, fun u h => (hafter u h).2⟩
  · rintro ⟨u, h⟩
    obtain ⟨hwrites, -, reply, hgrant, hcoming⟩ := hafter u h
    exact ⟨hwrites, reply, coming u, hgrant, hcoming⟩
  · rintro ⟨⟨hwrite, hwrite'⟩, reply, rest, hgrant, hcoming⟩
    have hstart : coming (wrote w greeting) = [5, 0] ++ (reply ++ rest) := hcoming
    obtain ⟨ps, hmethod, hrest⟩ := readMethod_of_coming hstart
    have hnext : coming (wrote (feed (wrote w greeting) ps) (request lookup host port))
        = reply ++ rest := hrest
    obtain ⟨ps', hreply, -⟩ := readReply_of_coming hgrant hnext
    exact ⟨_, (connect_ok_iff lookup host port).mpr ⟨_, hwrite, hmethod, hwrite', hreply⟩⟩

/-! ## What is sent -/

/-- Reading sends nothing. -/
def Silent {α : Type} (m : Sock α) : Prop := ∀ w, (m w).2.store.sent = w.store.sent

theorem Silent.bind {α β : Type} {m : Sock α} {k : α → Sock β} (hm : Silent m)
    (hk : ∀ a, Silent (k a)) : Silent (m >>= k) := by
  intro w
  have hm := hm w
  show (Io.bind m k w).2.store.sent = _
  unfold Io.bind
  cases hr : m w with
  | mk r u =>
      rw [hr] at hm
      cases r with
      | ok a => exact (hk a u).trans hm
      | error e => exact hm

theorem Silent.ite {α : Type} {c : Prop} [Decidable c] {m m' : Sock α} (hm : Silent m)
    (hm' : Silent m') : Silent (if c then m else m') := by
  split
  · exact hm
  · exact hm'

theorem silent_pure {α : Type} (a : α) : Silent (pure a : Sock α) := fun _ => rfl

theorem silent_throw {α : Type} (e : Failure) : Silent (Io.throw e : Sock α) := fun _ => rfl

theorem silent_readbuff (size : ℕ) : Silent (readbuff size) := fun _ => rfl

theorem silent_readMethod : Silent readMethod :=
  (silent_readbuff 2).bind fun _ =>
    (silent_throw _).ite ((silent_throw _).ite (silent_pure ()))

theorem silent_boundSize (atyp : UInt8) : Silent (boundSize atyp) :=
  (silent_pure 4).ite (((silent_readbuff 1).bind fun _ => silent_pure _).ite
    ((silent_pure 16).ite (silent_throw _)))

theorem silent_readReply : Silent readReply :=
  (silent_readbuff 4).bind fun _ =>
    (silent_throw _).ite ((silent_throw _).ite ((silent_boundSize _).bind fun _ =>
      (silent_readbuff _).bind fun _ => (silent_readbuff 2).bind fun _ => silent_pure ()))

theorem sent_prefix (w : World Conn Empty) :
    ∃ data, (connect lookup host port w).2.store.sent = w.store.sent ++ data
      ∧ data <+: greeting ++ request lookup host port
      ∧ (data <+: greeting ∨ [5, 0] <+: coming w) := by
  have hbegin := (writeAll_sent w.store.portions greeting).1
  by_cases hwrite : (writeAll w.store.portions greeting).1 = true
  · have hall := (writeAll_sent _ _).2 hwrite
    have hfirst : writebuff greeting w = (.ok (), wrote w greeting) := by
      rw [writebuff_eq, if_pos hwrite]
    have hsilent := silent_readMethod (wrote w greeting)
    have hstart : (wrote w greeting).store.sent = w.store.sent ++ greeting :=
      congrArg (w.store.sent ++ ·) hall
    cases hmethod : readMethod (wrote w greeting) with
    | mk r u =>
        rw [hmethod] at hsilent
        have hu : u.store.sent = w.store.sent ++ greeting := hsilent.trans hstart
        cases r with
        | error e =>
            have hend : connect lookup host port w = (.error e, u) :=
              (Io.bind_eq hfirst).trans (Io.bind_eq_error hmethod)
            rw [hend]
            exact ⟨greeting, hu, List.prefix_append _ _, .inl (List.prefix_refl _)⟩
        | ok _ =>
            have hselected : [5, 0] <+: coming w :=
              ⟨coming u, (coming_of_readMethod hmethod).2.symm⟩
            obtain ⟨rest, hrest⟩ := (writeAll_sent u.store.portions (request lookup host port)).1
            have hwrote : (wrote u (request lookup host port)).store.sent = w.store.sent
                ++ (greeting ++ (writeAll u.store.portions (request lookup host port)).2.1) := by
              show u.store.sent ++ _ = _
              rw [hu, List.append_assoc]
            refine ⟨greeting ++ (writeAll u.store.portions (request lookup host port)).2.1, ?_,
              ⟨rest, by rw [List.append_assoc, hrest]⟩, .inr hselected⟩
            by_cases hwrite' : (writeAll u.store.portions (request lookup host port)).1 = true
            · have hsecond : writebuff (request lookup host port) u
                  = (.ok (), wrote u (request lookup host port)) := by
                rw [writebuff_eq, if_pos hwrite']
              have hend : connect lookup host port w
                  = readReply (wrote u (request lookup host port)) :=
                (Io.bind_eq hfirst).trans ((Io.bind_eq hmethod).trans (Io.bind_eq hsecond))
              rw [hend]
              exact (silent_readReply _).trans hwrote
            · have hsecond : writebuff (request lookup host port) u
                  = (.error .io, wrote u (request lookup host port)) := by
                rw [writebuff_eq, if_neg hwrite']
              have hend : connect lookup host port w
                  = (.error .io, wrote u (request lookup host port)) :=
                (Io.bind_eq hfirst).trans ((Io.bind_eq hmethod).trans (Io.bind_eq_error hsecond))
              rw [hend]
              exact hwrote
  · have hfirst : writebuff greeting w = (.error .io, wrote w greeting) := by
      rw [writebuff_eq, if_neg hwrite]
    have hend : connect lookup host port w = (.error .io, wrote w greeting) :=
      Io.bind_eq_error hfirst
    rw [hend]
    exact ⟨_, rfl, hbegin.trans (List.prefix_append _ _), .inl hbegin⟩

/-- What a server reads of a request: the kind of address, the address and the port. -/
def decodeRequest : List UInt8 → Option (HostType × List UInt8 × ℕ)
  | ver :: cmd :: rsv :: atyp :: body =>
      let fields (kind : HostType) (size : ℕ) (body : List UInt8) :=
        match body.drop size with
        | [hi, lo] => some (kind, body.take size, hi.toNat * 256 + lo.toNat)
        | _        => none
      if ver ≠ 5 ∨ cmd ≠ 1 ∨ rsv ≠ 0 then none
      else if atyp = 1 then fields .IPv4 4 body
      else if atyp = 4 then fields .IPv6 16 body
      else if atyp = 3 then
        match body with
        | n :: body => fields .Name n.toNat body
        | []        => none
      else none
  | _ => none

/-- What the request is meant to ask for. -/
def target : HostType × List UInt8 :=
  match lookup host with
  | some (.inet a)  => (.IPv4, a.toList)
  | some (.inet6 a) => (.IPv6, a.toList)
  | none            => (.Name, host.take 255)

/-- **ROUND TRIP**: the server finds the address, of a name the first 255 bytes, and the
    port modulo 2^16. -/
theorem decode_request :
    decodeRequest (request lookup host port)
      = some ((target lookup host).1, (target lookup host).2, (port % 65536).toNat) := by
  have hport : (port / 256 % 256).toNat % 256 * 256 + (port % 256).toNat % 256
      = (port % 65536).toNat := by
    omega
  have hlow : ∀ {size : ℕ} {a : List UInt8}, a.length = size → ∀ p : List UInt8,
      (a ++ p).take size = a ∧ (a ++ p).drop size = p :=
    fun h p => ⟨List.take_left' h, List.drop_left' h⟩
  unfold request analyzeHost target
  cases lookup host with
  | some a =>
      cases a with
      | inet a =>
          have hsplit := hlow (show a.toList.length = 4 by simp)
          simp [decodeRequest, HostType.atyp, hsplit, hport]
      | inet6 a =>
          have hsplit := hlow (show a.toList.length = 16 by simp)
          simp [decodeRequest, HostType.atyp, hsplit, hport]
  | none =>
      -- 255 of the 256 bytes are left for the name
      have hsize : Nat.min (host.length + 1) 256 - 1 = Nat.min host.length 255 := by
        show min (host.length + 1) 256 - 1 = min host.length 255
        omega
      have hle : Nat.min host.length 255 ≤ 255 := Nat.min_le_right _ _
      have hn : (UInt8.ofNat (Nat.min host.length 255)).toNat = Nat.min host.length 255 :=
        UInt8.toNat_ofNat_of_lt (Nat.lt_of_le_of_lt hle (by decide))
      have htake : host.take (Nat.min host.length 255) = host.take 255 := by
        rw [List.take_eq_take_iff]
        show min (min host.length 255) host.length = min 255 host.length
        omega
      have hlen : (host.take 255).length = Nat.min host.length 255 := by
        rw [List.length_take]
        exact Nat.min_comm _ _
      have hsplit := hlow hlen
      simp only [hsize, htake]
      simp [decodeRequest, HostType.atyp, hn, hsplit, hport]

/-- **HEADLINE**: however it ends, what is sent is a beginning of the greeting and of a
    request for the target, and nothing of the request before the method was selected. -/
theorem connect_asks (w : World Conn Empty) :
    decodeRequest (request lookup host port)
        = some ((target lookup host).1, (target lookup host).2, (port % 65536).toNat)
      ∧ ∃ data, (connect lookup host port w).2.store.sent = w.store.sent ++ data
        ∧ data <+: greeting ++ request lookup host port
        ∧ (data <+: greeting ∨ [5, 0] <+: coming w) :=
  ⟨decode_request lookup host port, sent_prefix lookup host port w⟩

end Connect

/-- A method and a reply in three pieces, with two bytes from beyond the proxy. -/
def sampleWorld : World Conn Empty :=
  ⟨⟨[[5], [0, 5, 0, 0, 1, 1, 2], [3, 4, 0, 80, 72, 73]], [2, 9, 100], []⟩, [], 0⟩

theorem connect_iff_sample :
    ∃ u, connect (fun _ => none) [97, 98] 9735 sampleWorld = (.ok (), u)
      ∧ u.store.sent = greeting ++ request (fun _ => none) [97, 98] 9735 := by
  have hreply : Reply ([5, 0, 0, 1] ++ ([1, 2, 3, 4] ++ [0, 80])) := .ipv4 _ _ rfl rfl
  obtain ⟨u, hu⟩ := (connect_iff (fun _ => none) [97, 98] 9735 (w := sampleWorld)).1.mpr
    ⟨⟨rfl, rfl⟩, _, [72, 73], hreply, rfl⟩
  exact ⟨u, hu, ((connect_iff (fun _ => none) [97, 98] 9735).2 u hu).1⟩

end ProxyConnector
