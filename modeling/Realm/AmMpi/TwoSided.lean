import Mathlib.Data.List.Basic
import Mathlib.Data.List.Perm.Basic
import Realm.Lib.Run
import Realm.Lib.Index
import Realm.AmMpi.Net

/-!
# Realm.AmMpi.TwoSided — headers and their payloads

`set_am_msg_tag` numbers the two-sided messages of a thread modulo 32, whatever their targets.  The poll
runs completed headers in any order, so the tag has to tell the payloads apart that are waiting for it.

* `Inv`: for every source, target and tag there is at most one header to run, and then exactly one payload
  to receive, and both are of the same call.
* `paired_of_fresh`: it is kept, and every message is delivered with its own payload, as long as no tag is
  used towards a target while an earlier payload with it has not been received.
* `swap_payloads`: 31 messages to another target between two messages to the same one bring the tag back,
  and the poll may give the first payload to the second header.
-/

namespace Realm.AmMpi

open Lib

variable {H : Type} {amTable : Vector H 256} {net : Net} {s s' : State H}

/-! ## What a request sends -/

theorem Request.DecodesAs.recvHeader {r : Request} {bytes : List Byte} {tag : Option Word}
    (h : r.DecodesAs amTable bytes tag) (old : Buf) : ∃ buf, AmMpi.recvHeader old bytes = some buf := by
  cases tag with
  | none =>
    obtain ⟨buf, hbuf, -⟩ := h.2.decodes old
    exact ⟨buf, hbuf⟩
  | some w =>
    obtain ⟨m, -, -, hdec⟩ := h
    obtain ⟨buf, hbuf, -⟩ := hdec.decodes old
    exact ⟨buf, hbuf⟩

/-- What a request hands to MPI. -/
structure Request.Sends (amTable : Vector H 256) (r : Request) (th th' : Thread) (sent : Sent) : Prop where
  decodes : r.DecodesAs amTable sent.header (sent.payload.map Prod.fst)
  cases : (¬r.TwoSided ∧ th' = th ∧ sent.payload = none) ∨
    (r.TwoSided ∧ th' = (setAmMsgTag th).1 ∧
      ∃ m, r.msg = some m ∧ sent.payload = some ((setAmMsgTag th).2, m))

theorem Request.send_spec (amTable : Vector H 256) (r : Request) (th : Thread) (bufSend : Buf) :
    ∃ th' sent, r.send th bufSend = some (th', sent) ∧ r.Sends amTable th th' sent := by
  unfold Request.send
  cases hmsg : r.msg with
  | none =>
    obtain ⟨sent, hsend, hpay, hdec⟩ := amShort_decodes amTable bufSend r.handler r.one_le r.le_sixteen
    have hone : ¬r.TwoSided := by
      rintro ⟨m, hm, -⟩
      simp [hmsg] at hm
    refine ⟨th, sent, by simp [hsend], ?_, .inl ⟨hone, rfl, hpay⟩⟩
    rw [hpay]
    refine ⟨hone, ?_⟩
    simpa [Request.call, hmsg] using hdec
  | some m =>
    obtain ⟨th', sent, hsend, hsent⟩ := amMedium_decodes amTable r.handler th bufSend r.one_le r.le_sixteen
      (r.msg_lt m hmsg)
    refine ⟨th', sent, hsend, ?_⟩
    obtain ⟨hth, hpay, -, hdec⟩ := hsent
    by_cases hsep : mediumMode r.args.length m.length = .separate
    · rw [if_pos hsep] at hth hpay
      refine ⟨?_, .inr ⟨⟨m, hmsg, hsep⟩, hth, m, hmsg, hpay⟩⟩
      rw [hpay] at hdec ⊢
      refine ⟨m, hmsg, hsep, ?_⟩
      simpa [hsep, Function.comp_def] using hdec
    · rw [if_neg hsep] at hth hpay
      have hone : ¬r.TwoSided := by
        rintro ⟨m', hm', hsep'⟩
        rw [hmsg, Option.some.injEq] at hm'
        exact hsep (hm' ▸ hsep')
      refine ⟨?_, .inl ⟨hone, hth, hpay⟩⟩
      rw [hpay] at hdec ⊢
      refine ⟨hone, ?_⟩
      simpa [hsep, Request.call, hmsg] using hdec

/-! ## Headers to run and payloads to receive -/

def Poll.headers (p : Poll) : List Header := p.matched.map Matched.header ++ p.got.map Matched.header

/-- The headers to node `n` that have not been run. -/
def State.inbox (s : State H) (n : ℕ) : List Header :=
  s.headers.filter (fun h => h.dst = n) ++ (s.polls n).headers

/-- The payloads of calls that have started and that have not been received. -/
def State.unreceived (s : State H) : List Payload := s.payloads ++ s.pending.map Prod.snd

def Own (h : Header) (p : Payload) : Prop := p.call = h.call ∧ h.request.msg = some p.bytes

/-- At most one header and one payload with the key `k`, and both of the same call. -/
def Single (hs : List Header) (ps : List Payload) (k : Key) : Prop :=
  hs.filter (fun h => h.key = some k) = [] ∧ ps.filter (fun p => p.key = k) = [] ∨
    ∃ h p, hs.filter (fun h => h.key = some k) = [h] ∧ ps.filter (fun p => p.key = k) = [p] ∧ Own h p

section Single

variable {hs hs' : List Header} {ps ps' : List Payload} {k : Key} {h : Header} {p : Payload}

theorem Single.perm (hS : Single hs ps k) (hhs : hs'.Perm hs) (hps : ps'.Perm ps) : Single hs' ps' k := by
  have hhs' := hhs.filter (fun h => h.key = some k)
  have hps' := hps.filter (fun p => p.key = k)
  rcases hS with ⟨h0, p0⟩ | ⟨h, p, h1, p1, hown⟩
  · rw [h0] at hhs'
    rw [p0] at hps'
    exact .inl ⟨List.perm_nil.mp hhs', List.perm_nil.mp hps'⟩
  · rw [h1] at hhs'
    rw [p1] at hps'
    exact .inr ⟨h, p, List.perm_singleton.mp hhs', List.perm_singleton.mp hps', hown⟩

theorem Single.skip_header (hk : h.key ≠ some k) : Single (h :: hs) ps k ↔ Single hs ps k := by
  unfold Single
  rw [List.filter_cons_of_neg (by simpa using hk)]

theorem Single.skip_payload (hp : p.key ≠ k) : Single hs (p :: ps) k ↔ Single hs ps k := by
  unfold Single
  rw [List.filter_cons_of_neg (by simpa using hp)]

theorem Single.add (hS : Single hs ps k) (hk : h.key = some k) (hp : p.key = k)
    (hfresh : ∀ q ∈ ps, q.key ≠ k) (hown : Own h p) : Single (h :: hs) (p :: ps) k := by
  have hps : ps.filter (fun p => p.key = k) = [] := by
    rw [List.filter_eq_nil_iff]
    intro q hq
    simpa using hfresh q hq
  have hhs : hs.filter (fun h => h.key = some k) = [] := by
    rcases hS with ⟨h0, -⟩ | ⟨-, p', -, hp', -⟩
    · exact h0
    · rw [hps] at hp'
      simp at hp'
  refine .inr ⟨h, p, ?_, ?_, hown⟩
  · rw [List.filter_cons_of_pos (by simpa using hk), hhs]
  · rw [List.filter_cons_of_pos (by simpa using hp), hps]

/-- A header and a payload with the same key are of the same call, and no other has that key. -/
theorem Single.remove (hS : Single (h :: hs) (p :: ps) k) (hk : h.key = some k) (hp : p.key = k) :
    Own h p ∧ Single hs ps k := by
  unfold Single at hS
  rw [List.filter_cons_of_pos (by simpa using hk), List.filter_cons_of_pos (by simpa using hp)] at hS
  rcases hS with ⟨h0, -⟩ | ⟨h', p', hh, hpp, hown⟩
  · simp at h0
  · obtain ⟨rfl, hhs⟩ := List.cons.inj hh
    obtain ⟨rfl, hps⟩ := List.cons.inj hpp
    exact ⟨hown, .inl ⟨hhs, hps⟩⟩

end Single

/-! ## The invariant -/

/-- The buffer of a completed receive holds its header. -/
def Poll.Filled (p : Poll) : Prop :=
  ∀ m, m ∈ p.matched ∧ m.done = true ∨ m ∈ p.got → ∃ buf, recvHeader buf m.header.bytes = some m.slot.buf

structure Inv (amTable : Vector H 256) (s : State H) : Prop where
  inbox : ∀ n, ∀ h ∈ s.inbox n, h.dst = n ∧ h.request.DecodesAs amTable h.bytes h.tag
  filled : ∀ n, (s.polls n).Filled
  single : ∀ k : Key, Single (s.inbox k.dst) s.unreceived k
  paired : Paired amTable s

theorem inv_init : Inv amTable (init H net) := by
  refine ⟨fun n h hh => ?_, fun n m hm => ?_, fun k => .inl ⟨rfl, rfl⟩, fun d hd => ?_⟩
  · simp [State.inbox, Poll.headers, init, ampollInit] at hh
  · simp [init, ampollInit] at hm
  · simp [init] at hd

/-- A step that only moves headers and payloads on. -/
theorem Inv.of_perm (hI : Inv amTable s) (hin : ∀ n, (s'.inbox n).Perm (s.inbox n))
    (hun : s'.unreceived.Perm s.unreceived) (hfill : ∀ n, (s'.polls n).Filled)
    (hdel : s'.delivered = s.delivered) : Inv amTable s' where
  inbox n h hh := hI.inbox n h ((hin n).mem_iff.mp hh)
  filled := hfill
  single k := (hI.single k).perm (hin k.dst) hun
  paired d hd := hI.paired d (hdel ▸ hd)

theorem filled_update {n : ℕ} {p : Poll} (hI : Inv amTable s)
    (hpolls : s'.polls = Function.update s.polls n p) (hp : p.Filled) (j : ℕ) : (s'.polls j).Filled := by
  rw [hpolls]
  by_cases hj : j = n
  · subst hj
    rwa [Function.update_self]
  · rw [Function.update_of_ne hj]
    exact hI.filled j

/-- A step of one poll that only moves its headers on. -/
theorem Inv.of_poll {n : ℕ} {p : Poll} (hI : Inv amTable s) (hheaders : p.headers.Perm (s.polls n).headers)
    (hp : p.Filled) : Inv amTable { s with polls := Function.update s.polls n p } := by
  refine hI.of_perm (fun j => ?_) (.refl _) (filled_update hI rfl hp) rfl
  unfold State.inbox
  dsimp only
  by_cases hj : j = n
  · subst hj
    rw [Function.update_self]
    exact hheaders.append_left _
  · rw [Function.update_of_ne hj]

/-- The tag that a two-sided message is about to get is not the tag of an earlier message from the same node
to the same target that has not been received. -/
def FreshTag (net : Net) (s : State H) : Event → Prop
  | .send t dst _ r => r.TwoSided → ∀ p ∈ s.unreceived,
      p.key ≠ { src := net.node t, dst := dst, tag := (setAmMsgTag (s.threads t)).2 }
  | _ => True

/-- The header of a new call joins the inbox of its target. -/
theorem inbox_send {h : Header} (hheaders : s'.headers = s.headers ++ [h]) (hpolls : s'.polls = s.polls)
    (n : ℕ) : (s'.inbox n).Perm (if h.dst = n then h :: s.inbox n else s.inbox n) := by
  unfold State.inbox
  rw [hheaders, hpolls, List.filter_append]
  split_ifs with hn
  · rw [List.filter_cons_of_pos (by simpa using hn), List.filter_nil, List.append_assoc]
    exact List.perm_middle
  · rw [List.filter_cons_of_neg (by simpa using hn), List.filter_nil, List.append_nil]

/-- A new call for which `Single` holds keeps the invariant. -/
theorem Inv.of_send {h : Header} (hI : Inv amTable s) (hheaders : s'.headers = s.headers ++ [h])
    (hpolls : s'.polls = s.polls) (hdel : s'.delivered = s.delivered)
    (hdec : h.request.DecodesAs amTable h.bytes h.tag)
    (hsingle : ∀ k : Key, Single (if h.dst = k.dst then h :: s.inbox k.dst else s.inbox k.dst)
      s'.unreceived k) : Inv amTable s' where
  inbox n x hx := by
    have hx' := (inbox_send hheaders hpolls n).mem_iff.mp hx
    split_ifs at hx' with hn
    · rcases List.mem_cons.mp hx' with rfl | hx'
      · exact ⟨hn, hdec⟩
      · exact hI.inbox n x hx'
    · exact hI.inbox n x hx'
  filled n := hpolls ▸ hI.filled n
  single k := (hsingle k).perm (inbox_send hheaders hpolls k.dst) (.refl _)
  paired d hd := hI.paired d (hdel ▸ hd)

theorem send_inv {t dst : ℕ} {bufSend : Buf} {r : Request} (hI : Inv amTable s)
    (hf : FreshTag net s (.send t dst bufSend r)) (h : s.send net t dst bufSend r = some s') :
    Inv amTable s' := by
  unfold State.send at h
  split at h
  · simp at h
  obtain ⟨⟨th', sent⟩, hsend, rfl⟩ := Option.map_eq_some_iff.mp h
  obtain ⟨th'', sent', hsend', hS⟩ := r.send_spec amTable (s.threads t) bufSend
  obtain ⟨rfl, rfl⟩ : th'' = th' ∧ sent' = sent := by simpa [hsend] using hsend'.symm
  refine hI.of_send rfl rfl rfl hS.decodes fun k => ?_
  rcases hS.cases with ⟨-, -, hpay⟩ | ⟨htwo, -, m, hm, hpay⟩
  · simp only [State.unreceived, hpay, Option.map_none, Option.toList_none, List.append_nil]
    split_ifs
    · rw [Single.skip_header (by simp [Header.key])]
      exact hI.single k
    · exact hI.single k
  · have hfresh := hf htwo
    simp only [State.unreceived, hpay, Option.map_some, Option.toList_some, List.map_append, List.map_cons,
      List.map_nil]
    rw [← List.append_assoc]
    -- the new payload is the last one, behind `s.unreceived`
    refine Single.perm ?_ (.refl _) (List.perm_append_singleton _ _)
    by_cases hk : k = { src := net.node t, dst := dst, tag := (setAmMsgTag (s.threads t)).2 }
    · subst hk
      rw [if_pos rfl]
      exact (hI.single _).add rfl rfl hfresh ⟨rfl, hm⟩
    · rw [Single.skip_payload (Ne.symm hk)]
      split_ifs
      · rw [Single.skip_header (by simpa [Header.key] using Ne.symm hk)]
        exact hI.single k
      · exact hI.single k

theorem sendPayload_inv {t : ℕ} (hI : Inv amTable s) (h : s.sendPayload t = some s') : Inv amTable s' := by
  unfold State.sendPayload at h
  obtain ⟨p, hfind, rfl⟩ := Option.map_eq_some_iff.mp h
  have hperm := ((perm_eraseP hfind).2.map Prod.snd).symm
  refine hI.of_perm (fun n => .refl _) ?_ hI.filled rfl
  unfold State.unreceived
  rw [List.append_assoc]
  exact hperm.append_left _

theorem matchHeader_inv {n t : ℕ} (hI : Inv amTable s) (h : s.matchHeader n t = some s') :
    Inv amTable s' := by
  unfold State.matchHeader at h
  split at h
  case h_2 => simp at h
  rename_i slot posted hd hposted hfind
  obtain rfl := Option.some.inj h
  obtain ⟨hp, hperm⟩ := perm_eraseP hfind
  have hdst : hd.dst = n := (of_decide_eq_true hp).2
  have hfilter := fun j => hperm.filter (fun h => h.dst = j)
  refine hI.of_perm (fun j => ?_) (.refl _) (filled_update hI rfl ?_) rfl
  · unfold State.inbox
    by_cases hj : j = n
    · subst hj
      have hf := hfilter j
      rw [List.filter_cons_of_pos (by simpa using hdst)] at hf
      simp only [Function.update_self, Poll.headers, List.map_append, List.map_cons, List.map_nil]
      refine List.Perm.trans ?_ (hf.symm.append_right _)
      rw [List.append_assoc, List.singleton_append, List.cons_append]
      refine List.Perm.trans (List.Perm.append_left _ List.perm_middle) ?_
      exact List.perm_middle
    · have hf := hfilter j
      rw [List.filter_cons_of_neg (by simpa [hdst] using Ne.symm hj)] at hf
      simp only [Function.update_of_ne hj]
      exact hf.symm.append_right _
  · -- the new receive has not completed
    rintro m (⟨hm, hdone⟩ | hm)
    · rcases List.mem_append.mp hm with hm | hm
      · exact hI.filled n m (.inl ⟨hm, hdone⟩)
      · obtain rfl := List.mem_singleton.mp hm
        simp at hdone
    · exact hI.filled n m (.inr hm)

theorem complete_inv {n i : ℕ} (hI : Inv amTable s) (h : s.complete n i = some s') : Inv amTable s' := by
  unfold State.complete at h
  obtain ⟨m, hm, h⟩ := Option.bind_eq_some_iff.mp h
  split at h
  · simp at h
  obtain ⟨buf, hbuf, h⟩ := Option.bind_eq_some_iff.mp h
  obtain rfl := Option.some.inj h
  refine hI.of_poll ?_ ?_
  · unfold Poll.headers
    dsimp only
    rw [map_set_eq Matched.header hm]
    rfl
  · rintro m' (⟨hm', hdone⟩ | hm')
    · rcases List.mem_or_eq_of_mem_set hm' with hm' | rfl
      · exact hI.filled n m' (.inl ⟨hm', hdone⟩)
      · exact ⟨m.slot.buf, hbuf⟩
    · exact hI.filled n m' (.inr hm')

theorem testsome_inv {n : ℕ} {got : List Matched} (hI : Inv amTable s)
    (h : s.testsome n got = some s') : Inv amTable s' := by
  unfold State.testsome at h
  dsimp only at h
  split at h
  case isFalse => simp at h
  rename_i hc
  obtain ⟨hgot, -, -, hperm⟩ := hc
  obtain rfl := Option.some.inj h
  refine hI.of_poll ?_ ?_
  · unfold Poll.headers
    rw [hgot, List.map_nil, List.append_nil, ← List.map_append]
    have hsplit := List.filter_append_perm Matched.done (s.polls n).matched
    exact (((hperm.append_left _).trans List.perm_append_comm).trans hsplit).map _
  · rintro m (⟨hm, hdone⟩ | hm)
    · simp [hdone] at hm
    · have hm' := List.mem_filter.mp (hperm.mem_iff.mp hm)
      exact hI.filled n m (.inl hm')

theorem startIrecv_inv {n : ℕ} (hI : Inv amTable s) (h : s.startIrecv n = some s') : Inv amTable s' := by
  unfold State.startIrecv at h
  obtain ⟨slot, -, rfl⟩ := Option.map_eq_some_iff.mp h
  exact hI.of_poll (.refl _) (hI.filled n)

theorem recvPayload_eq_some {ps : List Payload} {src n : ℕ} {len tag : Word} {p : Payload}
    (h : recvPayload ps src n len tag = some p) :
    p.key = { src := src, dst := n, tag := tag } ∧ ps.Perm (p :: ps.eraseP (fun q => q.key = p.key)) := by
  unfold recvPayload at h
  obtain ⟨hfind, -⟩ := Option.filter_eq_some_iff.mp h
  obtain ⟨hkey, hperm⟩ := perm_eraseP hfind
  have hkey' := of_decide_eq_true hkey
  exact ⟨hkey', hkey' ▸ hperm⟩

theorem takenPayload_of_not (amTable : Vector H 256) {r : Request} (hone : ¬r.TwoSided) (ps : List Payload)
    (src n : ℕ) (buf : Buf) : takenPayload ps src n buf (some (r.call amTable)) = none := by
  unfold Request.call
  cases hmsg : r.msg with
  | none => rfl
  | some m =>
    cases hmode : mediumMode r.args.length m.length with
    | absent => simp [takenPayload, hmode]
    | packed => simp [takenPayload, hmode]
    | separate => exact absurd ⟨m, hmsg, hmode⟩ hone

/-- **What `got_am` does**: it makes the call of the header, with the earliest payload that has its key if it
is two-sided. -/
theorem gotAm_cases {n : ℕ} (hI : Inv amTable s) (h : s.gotAm amTable n = some s') :
    ∃ m got call taken, (s.polls n).got = m :: got ∧
      s'.polls = Function.update s.polls n { s.polls n with got := got, current := some m.slot } ∧
      s'.headers = s.headers ∧ s'.pending = s.pending ∧
      s'.delivered = s.delivered ++ [⟨m.header, taken, call⟩] ∧
      (m.header.tag = none ∧ call = m.header.request.call amTable ∧ taken = none ∧
          s'.payloads = s.payloads ∨
        ∃ w b p, m.header.tag = some w ∧ taken = some p ∧ m.header.request.msg = some b ∧
          mediumMode m.header.request.args.length b.length = .separate ∧
          call = .medium amTable[m.header.request.handler] .separate p.bytes (BitVec.ofNat 32 b.length)
            m.header.request.args ∧
          p.key = { src := m.header.src, dst := n, tag := w } ∧ s.payloads.Perm (p :: s'.payloads)) := by
  unfold State.gotAm at h
  split at h
  case h_2 => simp at h
  rename_i m got hgot hcur
  obtain ⟨call, hcall, rfl⟩ := Option.map_eq_some_iff.mp h
  obtain ⟨old, hold⟩ := hI.filled n m (.inr (by simp [hgot]))
  have hmem : m.header ∈ s.inbox n := by simp [State.inbox, Poll.headers, hgot]
  have hdec := (hI.inbox n m.header hmem).2
  cases htag : m.header.tag with
  | none =>
    rw [htag] at hdec
    obtain ⟨hone, hdec⟩ := hdec
    obtain ⟨buf, hbuf, -, hrun⟩ := hdec.decodes old
    obtain rfl : m.slot.buf = buf := Option.some.inj (hold.symm.trans hbuf)
    rw [(hrun _).2] at hcall
    obtain rfl := Option.some.inj hcall
    have htaken := takenPayload_of_not amTable hone s.payloads m.header.src n m.slot.buf
    refine ⟨m, got, _, none, hgot, rfl, rfl, rfl, ?_, .inl ⟨htag, rfl, rfl, ?_⟩⟩
    · simp [htaken]
    · simp [htaken]
  | some w =>
    rw [htag] at hdec
    obtain ⟨b, hb, hsep, hdec⟩ := hdec
    obtain ⟨buf, hbuf, hw, hrun⟩ := hdec.decodes old
    obtain rfl : m.slot.buf = buf := Option.some.inj (hold.symm.trans hbuf)
    rw [(hrun _).2, Option.map_map, Option.map_map] at hcall
    obtain ⟨p, hp, rfl⟩ := Option.map_eq_some_iff.mp hcall
    obtain ⟨hkey, hperm⟩ := recvPayload_eq_some hp
    have htaken : (getWord m.slot.buf 3).bind
        (recvPayload s.payloads m.header.src n (BitVec.ofNat 32 b.length)) = some p := by
      rw [hw w rfl, Option.bind_some, hp]
    refine ⟨m, got, _, some p, hgot, rfl, rfl, rfl, ?_, .inr ⟨w, b, p, htag, rfl, hb, hsep, rfl, hkey, ?_⟩⟩
    · simp [takenPayload, htaken]
    · simpa [takenPayload, htaken] using hperm

theorem inbox_gotAm {n : ℕ} {m : Matched} {got : List Matched} {slot : Option Slot}
    (hgot : (s.polls n).got = m :: got) (hheaders : s'.headers = s.headers)
    (hpolls : s'.polls = Function.update s.polls n { s.polls n with got := got, current := slot }) (j : ℕ) :
    (s.inbox j).Perm (if j = n then m.header :: s'.inbox j else s'.inbox j) := by
  unfold State.inbox
  rw [hpolls, hheaders]
  split_ifs with hj
  · subst hj
    rw [Function.update_self]
    simp only [Poll.headers, hgot, List.map_cons]
    rw [← List.append_assoc, ← List.append_assoc]
    exact List.perm_middle
  · rw [Function.update_of_ne hj]

theorem paired_snoc {d : Delivery H} (hP : Paired amTable s) (hdel : s'.delivered = s.delivered ++ [d])
    (hcall : d.call = d.header.request.call amTable)
    (hpay : ∀ p, d.payload = some p → p.call = d.header.call) : Paired amTable s' := by
  intro x hx
  rw [hdel] at hx
  rcases List.mem_append.mp hx with hx | hx
  · exact hP x hx
  · obtain rfl := List.mem_singleton.mp hx
    exact ⟨hcall, hpay⟩

theorem gotAm_inv {n : ℕ} (hI : Inv amTable s) (h : s.gotAm amTable n = some s') : Inv amTable s' := by
  obtain ⟨m, got, call, taken, hgot, hpolls, hheaders, hpending, hdel, hcases⟩ := gotAm_cases hI h
  have hin := inbox_gotAm hgot hheaders hpolls
  have hfill : ∀ j, (s'.polls j).Filled := by
    refine filled_update hI hpolls ?_
    rintro x (hx | hx)
    · exact hI.filled n x (.inl hx)
    · exact hI.filled n x (.inr (by rw [hgot]; exact List.mem_cons_of_mem _ hx))
  have hok : ∀ j, ∀ x ∈ s'.inbox j, x.dst = j ∧ x.request.DecodesAs amTable x.bytes x.tag := by
    intro j x hx
    apply hI.inbox j x
    rw [(hin j).mem_iff]
    split_ifs
    · exact List.mem_cons_of_mem _ hx
    · exact hx
  have hdst : m.header.dst = n := by
    refine (hI.inbox n _ ?_).1
    rw [(hin n).mem_iff, if_pos rfl]
    exact List.mem_cons_self
  rcases hcases with ⟨htag, rfl, rfl, hpay⟩ | ⟨w, b, p, htag, rfl, hb, hsep, rfl, hkey, hpay⟩
  · refine ⟨hok, hfill, fun k => ?_, paired_snoc hI.paired hdel rfl (by simp)⟩
    have hS := (hI.single k).perm (hin k.dst).symm (.refl _)
    unfold State.unreceived at hS ⊢
    rw [hpay, hpending]
    split_ifs at hS
    · rwa [Single.skip_header (by simp [Header.key, htag])] at hS
    · exact hS
  · -- the payload taken has the key of the header, and there is only one such payload
    have hhkey : m.header.key = some p.key := by simp [Header.key, htag, hdst, hkey]
    have hun : s.unreceived.Perm (p :: s'.unreceived) := by
      unfold State.unreceived
      rw [hpending]
      exact hpay.append_right _
    have hS := fun k : Key => (hI.single k).perm (hin k.dst).symm hun.symm
    have hkdst : p.key.dst = n := by rw [hkey]
    have hS0 := hS p.key
    rw [if_pos hkdst] at hS0
    obtain ⟨⟨hcall, hmsg⟩, hsingle⟩ := hS0.remove hhkey rfl
    obtain rfl : b = p.bytes := by rw [hb, Option.some.injEq] at hmsg; exact hmsg
    refine ⟨hok, hfill, fun k => ?_, paired_snoc hI.paired hdel ?_ ?_⟩
    · by_cases hk : k = p.key
      · exact hk ▸ hsingle
      · have hSk := hS k
        rw [Single.skip_payload (Ne.symm hk)] at hSk
        split_ifs at hSk
        · rwa [Single.skip_header (by simpa [hhkey] using Ne.symm hk)] at hSk
        · exact hSk
    · simp [Request.call, hb, hsep]
    · rintro q hq
      obtain rfl := Option.some.inj hq
      exact hcall

/-- **Step lemma.** -/
theorem step_inv {e : Event} (hI : Inv amTable s) (hf : FreshTag net s e)
    (h : step amTable net s e = some s') : Inv amTable s' := by
  cases e with
  | send t dst bufSend r => exact send_inv hI hf h
  | sendPayload t => exact sendPayload_inv hI h
  | matchHeader n t => exact matchHeader_inv hI h
  | complete n i => exact complete_inv hI h
  | testsome n got => exact testsome_inv hI h
  | gotAm n => exact gotAm_inv hI h
  | startIrecv n => exact startIrecv_inv hI h

/-- **Every message is delivered with its own payload**, in every run in which no two-sided message gets the
tag of an earlier message from the same node to the same target that has not been received. -/
theorem paired_of_fresh (net : Net) {es : List Event}
    (hg : Guarded (step amTable net) (FreshTag net) (init H net) es) {s : State H}
    (h : run (step amTable net) (init H net) es = some s) : Paired amTable s :=
  (run_inv_guarded (fun _ _ _ hI hf hs => step_inv hI hf hs) inv_init hg h).paired

/-! ## Two payloads with the same tag -/

/-- A whole call of `AM_medium_n`. -/
def sendBoth (t dst : ℕ) (bufSend : Buf) (r : Request) : List Event :=
  [.send t dst bufSend r, .sendPayload t]

/-- The header of call number `call` of thread `t`, whose variables are `th`. -/
def headerOf (net : Net) (t dst call : ℕ) (th : Thread) (r : Request) (bytes : List Byte) : Header where
  thread := t
  src := net.node t
  dst := dst
  bytes := bytes
  call := call
  request := r
  tag := some (setAmMsgTag th).2

/-- Its payload. -/
def payloadOf (net : Net) (t dst call : ℕ) (th : Thread) (m : List Byte) : Payload where
  key := { src := net.node t, dst := dst, tag := (setAmMsgTag th).2 }
  bytes := m
  call := call

/-- Thread `t` has made `k` calls, which leave its variables at `th`. -/
structure Called (t k : ℕ) (th : Thread) (hs : List Header) (ps : List Payload) (s s' : State H) : Prop where
  thread : s'.threads t = th
  pending : s'.pending = []
  headers : s'.headers = s.headers ++ hs
  payloads : s'.payloads = s.payloads ++ ps
  polls : s'.polls = s.polls
  calls : s'.calls = s.calls + k
  delivered : s'.delivered = s.delivered

theorem Called.trans {t k k' : ℕ} {th th' : Thread} {hs hs' : List Header} {ps ps' : List Payload}
    {u : State H} (h : Called t k th hs ps s s') (h' : Called t k' th' hs' ps' s' u) :
    Called t (k + k') th' (hs ++ hs') (ps ++ ps') s u where
  thread := h'.thread
  pending := h'.pending
  headers := by rw [h'.headers, h.headers, List.append_assoc]
  payloads := by rw [h'.payloads, h.payloads, List.append_assoc]
  polls := h'.polls.trans h.polls
  calls := by rw [h'.calls, h.calls, Nat.add_assoc]
  delivered := h'.delivered.trans h.delivered

theorem run_sendBoth (amTable : Vector H 256) (net : Net) (s : State H) (t dst : ℕ) (bufSend : Buf)
    {r : Request} {m : List Byte} (hm : r.msg = some m)
    (hsep : mediumMode r.args.length m.length = .separate) (hpending : s.pending = []) :
    ∃ bytes s', r.DecodesAs amTable bytes (some (setAmMsgTag (s.threads t)).2) ∧
      run (step amTable net) s (sendBoth t dst bufSend r) = some s' ∧
      Called t 1 (setAmMsgTag (s.threads t)).1 [headerOf net t dst s.calls (s.threads t) r bytes]
        [payloadOf net t dst s.calls (s.threads t) m] s s' := by
  obtain ⟨th', sent, hsend, hS⟩ := r.send_spec amTable (s.threads t) bufSend
  rcases hS.cases with ⟨hone, -⟩ | ⟨-, rfl, m', hm', hpay⟩
  · exact absurd ⟨m, hm, hsep⟩ hone
  obtain rfl : m = m' := Option.some.inj (hm.symm.trans hm')
  have hdec := hS.decodes
  rw [hpay] at hdec
  refine ⟨sent.header, { s with
    threads := Function.update s.threads t (setAmMsgTag (s.threads t)).1
    headers := s.headers ++ [headerOf net t dst s.calls (s.threads t) r sent.header]
    payloads := s.payloads ++ [payloadOf net t dst s.calls (s.threads t) m]
    calls := s.calls + 1 }, hdec, ?_, ⟨Function.update_self .., hpending, rfl, rfl, rfl, rfl, rfl⟩⟩
  simp [sendBoth, run_cons, step, State.send, State.sendPayload, hpending, hsend, hpay, headerOf, payloadOf]

/-- `k` calls to the same target only add headers and payloads for that target. -/
theorem run_sendMany (amTable : Vector H 256) (net : Net) (t dst : ℕ) (bufSend : Buf) {r : Request}
    {m : List Byte} (hm : r.msg = some m) (hsep : mediumMode r.args.length m.length = .separate) (k : ℕ)
    (s : State H) (hpending : s.pending = []) :
    ∃ hs ps s', (∀ h ∈ hs, h.dst = dst) ∧
      run (step amTable net) s (List.replicate k (sendBoth t dst bufSend r)).flatten = some s' ∧
      Called t k ((fun th => (setAmMsgTag th).1)^[k] (s.threads t)) hs ps s s' := by
  induction k generalizing s with
  | zero => exact ⟨[], [], s, by simp, rfl, ⟨rfl, hpending, by simp, by simp, rfl, rfl, rfl⟩⟩
  | succ k ih =>
    obtain ⟨bytes, s₁, -, hrun₁, hc₁⟩ := run_sendBoth amTable net s t dst bufSend hm hsep hpending
    obtain ⟨hs, ps, s₂, hhs, hrun₂, hc₂⟩ := ih s₁ hc₁.pending
    refine ⟨_, _, s₂, ?_, ?_, Nat.add_comm 1 k ▸ hc₁.trans (hc₁.thread ▸ hc₂)⟩
    · simpa [headerOf] using hhs
    · rw [List.replicate_succ, List.flatten_cons, run_append, hrun₁, Option.bind_some, hrun₂]

/-- `got_am` on a two-sided header hands the payload that `Recv` finds to the handler of the header. -/
theorem gotAm_twoSided {n : ℕ} {x : Matched} {got : List Matched} {old : Buf} {w : Word} {p : Payload}
    {m : List Byte} (hgot : (s.polls n).got = x :: got) (hcur : (s.polls n).current = none)
    (hfilled : recvHeader old x.header.bytes = some x.slot.buf)
    (hdec : x.header.request.DecodesAs amTable x.header.bytes (some w)) (hm : x.header.request.msg = some m)
    (hp : recvPayload s.payloads x.header.src n (BitVec.ofNat 32 m.length) w = some p) :
    ∃ s', s.gotAm amTable n = some s' ∧ s'.delivered = s.delivered ++ [⟨x.header, some p,
      .medium amTable[x.header.request.handler] .separate p.bytes (BitVec.ofNat 32 m.length)
        x.header.request.args⟩] := by
  obtain ⟨m', hm', -, hdec⟩ := hdec
  obtain rfl : m = m' := Option.some.inj (hm.symm.trans hm')
  obtain ⟨buf, hbuf, hw, hrun⟩ := hdec.decodes old
  obtain rfl : x.slot.buf = buf := Option.some.inj (hfilled.symm.trans hbuf)
  have htaken : (getWord x.slot.buf 3).bind
      (recvPayload s.payloads x.header.src n (BitVec.ofNat 32 m.length)) = some p := by
    rw [hw w rfl, Option.bind_some, hp]
  unfold State.gotAm
  rw [hgot, hcur]
  dsimp only
  rw [(hrun _).2, hp]
  exact ⟨_, rfl, by simp [takenPayload, htaken]⟩

/-- Two messages to `n` with 31 messages to `other` between them, both headers completed before the poll
looks, and the second one run first. -/
def swapRun (t n other : ℕ) (bufSend : Buf) (first between second : Request) (got : List Matched) :
    List Event :=
  sendBoth t n bufSend first ++ (List.replicate 31 (sendBoth t other bufSend between)).flatten ++
    sendBoth t n bufSend second ++
    [.matchHeader n t, .matchHeader n t, .complete n 0, .complete n 1, .testsome n got] ++ [.gotAm n]

theorem setAmMsgTag_iterate (th : Thread) (k : ℕ) :
    (fun th => (setAmMsgTag th).1)^[k] th =
      { th with amSeq := (fun q : Word => (q + 1) &&& 0x1f)^[k] th.amSeq } := by
  induction k generalizing th with
  | zero => rfl
  | succ k ih =>
    rw [Function.iterate_succ_apply, Function.iterate_succ_apply, ih]
    rfl

/-- After 32 two-sided messages the tags start again. -/
theorem setAmMsgTag_wrap (w : Word) :
    (fun th => (setAmMsgTag th).1)^[31] (setAmMsgTag { threadId := w, amSeq := 0 }).1 =
      { threadId := w, amSeq := 0 } := by
  have hseq : (fun q : Word => (q + 1) &&& 0x1f)^[31] ((0 + 1) &&& 0x1f) = 0 := by decide
  rw [setAmMsgTag_iterate]
  exact congrArg (Thread.mk w) hseq

/-- The poll of a node that has not received anything: two headers of thread `t` fill the first two slots,
and the poll runs the second header first. -/
theorem run_swapped (amTable : Vector H 256) (net : Net) (t : ℕ) {n : ℕ} {h₁ h₂ : Header} {hs : List Header}
    (hpoll : s.polls n = ampollInit) (hheaders : s.headers = h₁ :: (hs ++ [h₂]))
    (h₁t : h₁.thread = t) (h₁n : h₁.dst = n) (h₂t : h₂.thread = t) (h₂n : h₂.dst = n)
    (hhs : ∀ h ∈ hs, h.dst ≠ n) {buf₁ buf₂ : Buf}
    (hbuf₁ : recvHeader (.replicate _ 0#8) h₁.bytes = some buf₁)
    (hbuf₂ : recvHeader (.replicate _ 0#8) h₂.bytes = some buf₂) :
    ∃ got s' slot rest, run (step amTable net) s
        [.matchHeader n t, .matchHeader n t, .complete n 0, .complete n 1, .testsome n got] = some s' ∧
      s'.payloads = s.payloads ∧ s'.delivered = s.delivered ∧
      (s'.polls n).got = { slot := slot, header := h₂, done := true } :: rest ∧
      (s'.polls n).current = none ∧ slot.buf = buf₂ := by
  have hfind : (hs ++ [h₂]).find? (fun h => decide (h.thread = t ∧ h.dst = n)) = some h₂ := by
    rw [List.find?_append, List.find?_eq_none.mpr (fun h hh => by simp [hhs h hh])]
    simp [h₂t, h₂n]
  refine ⟨[⟨⟨1, buf₂⟩, h₂, true⟩, ⟨⟨0, buf₁⟩, h₁, true⟩], ?_⟩
  have hswap : [(⟨⟨1, buf₂⟩, h₂, true⟩ : Matched), ⟨⟨0, buf₁⟩, h₁, true⟩].Perm
      [⟨⟨0, buf₁⟩, h₁, true⟩, ⟨⟨1, buf₂⟩, h₂, true⟩] := List.Perm.swap _ _ _
  simp [-Bool.decide_and, run_cons, step, State.matchHeader, hpoll, hheaders, ampollInit, List.finRange_succ,
    h₁t, h₁n, hfind, State.complete, hbuf₁, hbuf₂, State.testsome, hswap]

/-- The receive of the poll finds the earliest of two payloads with the same key. -/
theorem recvPayload_first {ps : List Payload} {p : Payload} {src n : ℕ} {len tag : Word}
    (hp : p.key = { src := src, dst := n, tag := tag }) (hlen : p.bytes.length ≤ len.toNat) :
    recvPayload (p :: ps) src n len tag = some p := by
  unfold recvPayload
  rw [List.find?_cons_of_pos (by simpa using hp)]
  simp [hlen]

/-- **The payloads of two messages with the same tag are swapped**: for every thread and any two-sided
messages, if 31 messages to another target are sent between two messages to `n` and both headers have
completed when `n` polls, the handler of the second may be called with the payload of the first. -/
theorem swap_payloads (amTable : Vector H 256) (net : Net) (t : ℕ) {n other : ℕ} (hne : other ≠ n)
    (bufSend : Buf) {first between second : Request} {m₁ m m₂ : List Byte}
    (hm₁ : first.msg = some m₁) (hsep₁ : mediumMode first.args.length m₁.length = .separate)
    (hm : between.msg = some m) (hsep : mediumMode between.args.length m.length = .separate)
    (hm₂ : second.msg = some m₂) (hsep₂ : mediumMode second.args.length m₂.length = .separate)
    (hle : m₁.length ≤ m₂.length) :
    ∃ got s h p, run (step amTable net) (init H net) (swapRun t n other bufSend first between second got) =
        some s ∧ h.request = second ∧ h.call = 32 ∧ p.call = 0 ∧
      s.delivered = [⟨h, some p,
        .medium amTable[second.handler] .separate m₁ (BitVec.ofNat 32 m₂.length) second.args⟩] := by
  set th : Thread := { threadId := net.threadId t, amSeq := 0 } with hth
  obtain ⟨bytes₁, s₁, hdec₁, hrun₁, hc₁⟩ := run_sendBoth amTable net (init H net) t n bufSend hm₁ hsep₁ rfl
  obtain ⟨hs, ps, s₂, hhs, hrun₂, hc₂⟩ :=
    run_sendMany amTable net t other bufSend hm hsep 31 s₁ hc₁.pending
  -- the variables of the thread are what they were at the start
  have hthread : s₂.threads t = th := by
    rw [hc₂.thread, hc₁.thread]
    exact setAmMsgTag_wrap (net.threadId t)
  obtain ⟨bytes₂, s₃, hdec₂, hrun₃, hc₃⟩ := run_sendBoth amTable net s₂ t n bufSend hm₂ hsep₂ hc₂.pending
  have hc := (hc₁.trans hc₂).trans hc₃
  have hcalls : s₂.calls = 32 := (hc₁.trans hc₂).calls
  rw [hthread] at hdec₂ hc
  rw [hcalls] at hc
  obtain ⟨buf₁, hbuf₁⟩ := hdec₁.recvHeader (.replicate _ 0#8)
  obtain ⟨buf₂, hbuf₂⟩ := hdec₂.recvHeader (.replicate _ 0#8)
  have hpoll : s₃.polls n = ampollInit := by
    rw [hc.polls]
    rfl
  obtain ⟨got, s₄, slot, rest, hrun₄, hpay₄, hdel₄, hgot, hcur, hslot⟩ :=
    run_swapped amTable net t hpoll hc.headers rfl rfl rfl rfl (fun h hh => hhs h hh ▸ hne) hbuf₁ hbuf₂
  have hrecv : recvPayload s₄.payloads (net.node t) n (BitVec.ofNat 32 m₂.length) (setAmMsgTag th).2 =
      some (payloadOf net t n 0 th m₁) := by
    rw [hpay₄, hc.payloads]
    refine recvPayload_first rfl ?_
    rw [toNat_ofNat_length (second.msg_lt m₂ hm₂)]
    exact hle
  obtain ⟨s₅, hs₅, hdel⟩ := gotAm_twoSided hgot hcur (hslot ▸ hbuf₂) hdec₂ hm₂ hrecv
  refine ⟨got, s₅, headerOf net t n 32 th second bytes₂, payloadOf net t n 0 th m₁, ?_, rfl, rfl, rfl, ?_⟩
  · have hsends : run (step amTable net) (init H net) (sendBoth t n bufSend first ++
        (List.replicate 31 (sendBoth t other bufSend between)).flatten ++ sendBoth t n bufSend second) =
        some s₃ := by
      rw [run_append, run_append, hrun₁, Option.bind_some, hrun₂, Option.bind_some, hrun₃]
    refine run_snoc_eq_some.mpr ⟨s₄, ?_, hs₅⟩
    rw [run_append, hsends, Option.bind_some, hrun₄]
  · rw [hdel, hdel₄, hc.delivered]
    rfl

/-- One thread on every node. -/
def oneThreadEach : Net where
  node := id
  threadId _ := 1
  threadId_ne _ := by decide
  threadId_inj t u h _ := h

/-- A message of 300 bytes `b`, the shortest that is sent separately behind one argument. -/
def bytesRequest (b : Byte) : Request where
  handler := 7
  args := [0]
  msg := some (List.replicate 300 b)
  one_le := by decide
  le_sixteen := by decide
  msg_lt m hm := by
    obtain rfl := Option.some.inj hm
    rw [List.length_replicate]
    omega

theorem bytesRequest_separate (b : Byte) :
    mediumMode (bytesRequest b).args.length (List.replicate 300 b).length = .separate := by
  rw [List.length_replicate]
  rfl

/-- A message to a node that has not received anything is received, and the poll has it next. -/
theorem run_received (amTable : Vector H 256) (net : Net) (t : ℕ) {n : ℕ} {h : Header}
    (hpoll : s.polls n = ampollInit) (hheaders : s.headers = [h]) (ht : h.thread = t) (hn : h.dst = n)
    {buf : Buf} (hbuf : recvHeader (.replicate _ 0#8) h.bytes = some buf) :
    ∃ got s' slot rest, run (step amTable net) s [.matchHeader n t, .complete n 0, .testsome n got] = some s' ∧
      s'.payloads = s.payloads ∧ s'.delivered = s.delivered ∧
      (s'.polls n).got = { slot := slot, header := h, done := true } :: rest ∧
      (s'.polls n).current = none ∧ slot.buf = buf := by
  refine ⟨[⟨⟨0, buf⟩, h, true⟩], ?_⟩
  simp [run_cons, step, State.matchHeader, hpoll, hheaders, ampollInit, List.finRange_succ, ht, hn,
    State.complete, hbuf, State.testsome]

/-- Node 0 sends a message to node 1, which receives it with its payload. -/
theorem paired_oneMessage :
    ∃ es s, Guarded (step (Vector.ofFn id) oneThreadEach) (FreshTag oneThreadEach)
        (init (Fin 256) oneThreadEach) es ∧
      run (step (Vector.ofFn id) oneThreadEach) (init (Fin 256) oneThreadEach) es = some s ∧
      s.delivered.length = 1 ∧ Paired (Vector.ofFn id) s := by
  obtain ⟨bytes, s₁, hdec, hrun₁, hc⟩ := run_sendBoth (Vector.ofFn id) oneThreadEach
    (init (Fin 256) oneThreadEach) 0 1 (.replicate _ 0) rfl (bytesRequest_separate 1) rfl
  obtain ⟨buf, hbuf⟩ := hdec.recvHeader (.replicate _ 0#8)
  have hlen := (bytesRequest 1).msg_lt _ rfl
  have hpoll : s₁.polls 1 = ampollInit := by
    rw [hc.polls]
    rfl
  obtain ⟨got, s₂, slot, rest, hrun₂, hpay, hdel, hgot, hcur, hslot⟩ :=
    run_received (Vector.ofFn id) oneThreadEach 0 hpoll hc.headers rfl rfl hbuf
  obtain ⟨s₃, hs₃, hdel₃⟩ := gotAm_twoSided hgot hcur (hslot ▸ hbuf) hdec rfl
    (by rw [hpay, hc.payloads]; exact recvPayload_first rfl (toNat_ofNat_length hlen).ge)
  have hrun : run (step (Vector.ofFn id) oneThreadEach) (init (Fin 256) oneThreadEach)
      (sendBoth 0 1 (.replicate _ 0) (bytesRequest 1) ++
        [.matchHeader 1 0, .complete 1 0, .testsome 1 got] ++ [.gotAm 1]) = some s₃ := by
    refine run_snoc_eq_some.mpr ⟨s₂, ?_, hs₃⟩
    rw [run_append, hrun₁, Option.bind_some, hrun₂]
  have hg : Guarded (step (Vector.ofFn id) oneThreadEach) (FreshTag oneThreadEach)
      (init (Fin 256) oneThreadEach) (sendBoth 0 1 (.replicate _ 0) (bytesRequest 1) ++
        [.matchHeader 1 0, .complete 1 0, .testsome 1 got] ++ [.gotAm 1]) :=
    -- nothing has been sent before the only message
    ⟨fun _ p hp => absurd hp (by simp [State.unreceived, init]), fun _ _ => ⟨trivial, fun _ _ => ⟨trivial,
      fun _ _ => ⟨trivial, fun _ _ => ⟨trivial, fun _ _ => ⟨trivial, fun _ _ => trivial⟩⟩⟩⟩⟩⟩
  refine ⟨_, s₃, hg, hrun, ?_, paired_of_fresh oneThreadEach hg hrun⟩
  rw [hdel₃, hdel, hc.delivered]
  rfl

/-- Node 0 sends a message of ones to node 1, 31 messages to node 2 and a message of twos to node 1: the
handler for the second message to node 1 is called with the ones. -/
theorem payload_swapped :
    ∃ got s d, run (step (Vector.ofFn id) oneThreadEach) (init (Fin 256) oneThreadEach)
        (swapRun 0 1 2 (.replicate _ 0) (bytesRequest 1) (bytesRequest 3) (bytesRequest 2) got) = some s ∧
      s.delivered = [d] ∧ d.header.request = bytesRequest 2 ∧
      d.call = .medium 7 .separate (List.replicate 300 1) 300#32 [0] ∧
      ¬Paired (Vector.ofFn id) s := by
  obtain ⟨got, s, h, p, hrun, hreq, hcall, hp, hdel⟩ :=
    swap_payloads (Vector.ofFn id) oneThreadEach 0 (show 2 ≠ 1 by decide) (.replicate _ 0)
      rfl (bytesRequest_separate 1) rfl (bytesRequest_separate 3) rfl (bytesRequest_separate 2)
      (by rw [List.length_replicate, List.length_replicate])
  refine ⟨got, s, _, hrun, hdel, hreq, ?_, fun hP => ?_⟩
  · have hfn : (Vector.ofFn id : Vector (Fin 256) 256)[(bytesRequest 2).handler] = 7 :=
      Vector.getElem_ofFn ..
    rw [List.length_replicate, hfn]
    rfl
  · have hpair := (hP _ (hdel ▸ List.mem_singleton_self _)).2 p rfl
    dsimp only at hpair
    omega

end Realm.AmMpi
