import Udm.Gateway.Wire
import Udm.Session.Handshake

/-!
# The exchange of addresses

What the loop that removes the loopback addresses makes of a list of addresses
(`removeLoopback_eq`): from the first loopback address on, every entry is
replaced by the next one, which removes the first loopback address only, but the
count is decremented for each of them. So the list kept is the advertised list
without its loopback addresses if and only if, after the first of them, those
that remain come last (`take_shift_iff`).

- The loop runs over an array in place. `shift` is the list it leaves, by recursion on
  the list, and `readsFrom` are the indices it reads; `foldl_iter` is the induction that
  connects them with the iterations.
- The last entry is replaced by the one behind the list, which is not part of it. It is
  a parameter `past` here, and the count hides it from what is kept.
- The addresses reach the loop through a capsule: they are encoded one after the other,
  and decoded by the peer with the same length.
-/

namespace Udm

namespace SessionProcessor

/-! ## The loop over a list -/

/-- The list the loop leaves: once a loopback address was found, every entry is
    replaced by the next one. -/
def shift (past : IpaddrDummy) : Bool → List IpaddrDummy → List IpaddrDummy
  | _, [] => []
  | localhost_found, a :: l =>
    (if localhost_found || a.isLoopback then l.headD past else a) ::
      shift past (localhost_found || a.isLoopback) l

/-- The indices the loop reads, from the entry `i` on. -/
def readsFrom : ℕ → Bool → List IpaddrDummy → List ℕ
  | _, _, [] => []
  | i, localhost_found, a :: l =>
    (if localhost_found || a.isLoopback then [i, i + 1] else [i]) ++
      readsFrom (i + 1) (localhost_found || a.isLoopback) l

variable (past : IpaddrDummy)

/-- An iteration at the entry after `done`, which is `a`. -/
theorem iter_append {n : ℕ} (done : List IpaddrDummy) (a : IpaddrDummy) (l : List IpaddrDummy)
    (hn : done.length < n) (count : ℤ) (localhost_found : Bool) (reads : List ℕ) :
    Scan.iter n past { list := done ++ a :: l, count, localhost_found, reads } done.length =
      { list := done ++ (if localhost_found || a.isLoopback then l.headD past else a) :: l
        count := count - if a.isLoopback then 1 else 0
        localhost_found := localhost_found || a.isLoopback
        reads := reads ++
          if localhost_found || a.isLoopback then [done.length, done.length + 1]
          else [done.length] } := by
  have hnext : (done ++ a :: l)[done.length + 1]?.getD past = l.head?.getD past := by
    cases l <;> simp
  cases ha : a.isLoopback <;> cases localhost_found <;> simp [Scan.iter, ha, hn, hnext]

/-- The loop from the entry after `done` on, which starts `l`. -/
theorem foldl_iter {n : ℕ} (done l : List IpaddrDummy) (hn : done.length + l.length = n)
    (count : ℤ) (localhost_found : Bool) (reads : List ℕ) :
    (List.range' done.length l.length).foldl (Scan.iter n past)
        { list := done ++ l, count, localhost_found, reads } =
      { list := done ++ shift past localhost_found l
        count := count - l.countP IpaddrDummy.isLoopback
        localhost_found := localhost_found || l.any IpaddrDummy.isLoopback
        reads := reads ++ readsFrom done.length localhost_found l } := by
  induction l generalizing done count localhost_found reads with
  | nil => simp [shift, readsFrom]
  | cons a l ih =>
    have hlt : done.length < n := by rw [← hn, List.length_cons]; omega
    rw [List.length_cons, List.range'_succ, List.foldl_cons, iter_append past done a l hlt]
    set b := if localhost_found || a.isLoopback then l.headD past else a
    have hlen : done.length + 1 = (done ++ [b]).length := by simp
    have happ : done ++ b :: l = (done ++ [b]) ++ l := by simp
    rw [hlen, happ, ih (done ++ [b]) (by rw [← hn]; simp; omega)]
    simp only [shift, readsFrom, b, List.append_assoc, List.cons_append, List.nil_append,
      List.countP_cons, List.any_cons, Bool.or_assoc, List.length_append, List.length_cons,
      List.length_nil, Nat.cast_add]
    -- A loopback address is counted off.
    cases a.isLoopback <;> simp
    ring

/-- What the loop makes of a list. -/
theorem removeLoopback_eq (l : List IpaddrDummy) :
    removeLoopback l.length past l =
      { list := shift past false l
        count := l.length - l.countP IpaddrDummy.isLoopback
        localhost_found := l.any IpaddrDummy.isLoopback
        reads := readsFrom 0 false l } := by
  have := foldl_iter past [] l (n := l.length) (by simp) l.length false []
  simpa [removeLoopback, List.range_eq_range'] using this

/-! ## The addresses kept -/

/-- Once a loopback address was found, the entries move up by one. -/
theorem shift_true (a : IpaddrDummy) (l : List IpaddrDummy) :
    shift past true (a :: l) = l ++ [past] := by
  induction l generalizing a with
  | nil => simp [shift]
  | cons b l ih =>
    rw [shift, Bool.true_or, ih b]
    simp

/-- The list the loop leaves: up to the first loopback address nothing changes,
    and from it on the list is shifted. -/
theorem shift_false (l : List IpaddrDummy) :
    shift past false l = l.takeWhile (fun a => !a.isLoopback) ++
      if l.any IpaddrDummy.isLoopback then
        (l.dropWhile fun a => !a.isLoopback).tail ++ [past] else [] := by
  induction l with
  | nil => simp [shift]
  | cons a l ih =>
    cases ha : a.isLoopback with
    | false =>
      rw [shift, Bool.false_or, ha, ih]
      simp [ha]
    | true =>
      have h := shift_true past a l
      rw [shift, Bool.true_or] at h
      rw [shift, Bool.false_or, ha, h]
      simp [ha]

variable {past}

/-- As many elements of `l` as satisfy `P` are those that do if and only if they
    come first. -/
theorem take_filter_iff {α : Type} {P : α → Bool} {l : List α} :
    l.take (l.filter P).length = l.filter P ↔ l.Pairwise fun a b => P b → P a := by
  induction l with
  | nil => simp
  | cons a l ih =>
    rw [List.pairwise_cons]
    by_cases ha : P a
    · simp [ha, ih]
    · rw [List.filter_cons_of_neg ha]
      constructor
      · intro h
        have hnil : l.filter P = [] := by
          rcases hl : l.filter P with - | ⟨b, bs⟩
          · rfl
          · rw [hl, List.length_cons, List.take_succ_cons] at h
            have hb : b ∈ l.filter P := hl ▸ List.mem_cons_self
            exact absurd ((List.cons.inj h).1 ▸ (List.mem_filter.1 hb).2) ha
        have hnone : ∀ b ∈ l, ¬P b := List.filter_eq_nil_iff.1 hnil
        refine ⟨fun b hb hPb => absurd hPb (hnone b hb), ?_⟩
        exact List.pairwise_of_forall_mem_list fun _ _ b hb hPb => absurd hPb (hnone b hb)
      · rintro ⟨hl, -⟩
        have hnil : l.filter P = [] :=
          List.filter_eq_nil_iff.2 fun b hb hPb => ha (hl b hb hPb)
        rw [hnil]
        rfl

/-- After the first loopback address, those that remain come last. -/
def LoopbacksLast (l : List IpaddrDummy) : Prop :=
  (l.dropWhile fun a => !a.isLoopback).tail.Pairwise fun a b => !b.isLoopback → !a.isLoopback

/-- A list with a loopback address, split at the first one. -/
theorem exists_split {l : List IpaddrDummy} (h : l.any IpaddrDummy.isLoopback) :
    ∃ a rest, l.dropWhile (fun a => !a.isLoopback) = a :: rest ∧ a.isLoopback ∧
      l = l.takeWhile (fun a => !a.isLoopback) ++ a :: rest := by
  have hne : l.dropWhile (fun a => !a.isLoopback) ≠ [] := by
    obtain ⟨a, ha, hl⟩ := List.any_eq_true.1 h
    intro hnil
    simpa [hl] using List.dropWhile_eq_nil_iff.1 hnil a ha
  obtain ⟨a, rest, hdrop⟩ := List.exists_cons_of_ne_nil hne
  have ha := List.head_dropWhile_not (fun a : IpaddrDummy => !a.isLoopback) hne
  refine ⟨a, rest, hdrop, by simpa [hdrop] using ha, ?_⟩
  conv_lhs => rw [← List.takeWhile_append_dropWhile (p := fun a => !a.isLoopback) (l := l), hdrop]

/-- The entries of the list that count are the advertised addresses other than
    the loopback addresses if and only if these come last. -/
theorem take_shift_iff (l : List IpaddrDummy) :
    (shift past false l).take (l.length - l.countP IpaddrDummy.isLoopback) =
      l.filter (fun a => !a.isLoopback) ↔ LoopbacksLast l := by
  rw [shift_false]
  by_cases h : l.any IpaddrDummy.isLoopback
  · obtain ⟨a, rest, hdrop, ha, hl⟩ := exists_split h
    set pre := l.takeWhile (fun a => !a.isLoopback)
    have hpre : ∀ b ∈ pre, b.isLoopback = false := fun b hb => by
      simpa using List.mem_takeWhile_imp hb
    have hkept : pre.filter (fun a => !a.isLoopback) = pre :=
      List.filter_eq_self.2 fun b hb => by simp [hpre b hb]
    have hfilter : l.filter (fun a => !a.isLoopback) =
        pre ++ rest.filter (fun a => !a.isLoopback) := by
      rw [hl, List.filter_append, hkept, List.filter_cons_of_neg (by simp [ha])]
    have hcount : l.length - l.countP IpaddrDummy.isLoopback =
        pre.length + (rest.filter fun a => !a.isLoopback).length := by
      have hsplit : l.length = l.countP IpaddrDummy.isLoopback +
          l.countP fun a => !a.isLoopback := by
        simpa using l.length_eq_countP_add_countP IpaddrDummy.isLoopback
      rw [← List.length_append, ← hfilter, ← List.countP_eq_length_filter]
      omega
    have hle : (rest.filter fun a => !a.isLoopback).length ≤ rest.length :=
      List.length_filter_le _ _
    rw [if_pos h, hfilter, hcount, hdrop, List.tail_cons, List.take_length_add_append,
      List.take_append_of_le_length hle, List.append_cancel_left_eq, take_filter_iff,
      LoopbacksLast, hdrop, List.tail_cons]
  · have hnone : ∀ b ∈ l, b.isLoopback = false := by simpa using h
    have hdrop : l.dropWhile (fun a => !a.isLoopback) = [] :=
      List.dropWhile_eq_nil_iff.2 fun b hb => by simp [hnone b hb]
    have hkept : l.filter (fun a => !a.isLoopback) = l :=
      List.filter_eq_self.2 fun b hb => by simp [hnone b hb]
    have htake : l.takeWhile (fun a => !a.isLoopback) = l :=
      List.takeWhile_eq_self_iff.2 fun b hb => by simp [hnone b hb]
    have hcount : l.countP IpaddrDummy.isLoopback = 0 :=
      List.countP_eq_zero.2 fun b hb => by simp [hnone b hb]
    simp [hkept, htake, hcount, LoopbacksLast, hdrop]

/-! ## From one list to the other -/

section Copy

variable (list : List IpaddrDummy)

/-- The loop copying the addresses into a body leaves the address `j` at its
    place, those before the interface `i` as they were. -/
theorem load_copyAddresses {i j : ℕ} {counts : List ℕ} {body : Block Byte}
    (hconst : ∀ c ∈ counts, c = list.length) (hcounts : list.length - i ≤ counts.length)
    (hj : j < list.length) :
    (copyAddresses list past i counts body).load (HEADER_SPACE + j * ADDR_LEN) ADDR_LEN =
      if i ≤ j then (list[j]).data else body.load (HEADER_SPACE + j * ADDR_LEN) ADDR_LEN := by
  induction counts generalizing i body with
  | nil =>
    rw [copyAddresses, if_neg]
    simp at hcounts
    omega
  | cons c counts ih =>
    have hc : c = list.length := hconst c List.mem_cons_self
    rw [copyAddresses, hc]
    split_ifs with hi hij hij
    · rw [ih (fun c hc => hconst c (List.mem_cons_of_mem _ hc)) (by simp at hcounts; omega)]
      split_ifs with hij'
      · rfl
      · obtain rfl : i = j := by omega
        rw [Block.load_store_of_length _ (IpaddrDummy.length_data _), List.getD_eq_getElem _ _ hi]
    · rw [ih (fun c hc => hconst c (List.mem_cons_of_mem _ hc)) (by simp at hcounts; omega),
        if_neg (by omega), Block.load_store_of_disjoint]
      rw [IpaddrDummy.length_data]
      left
      have : (j + 1) * ADDR_LEN ≤ i * ADDR_LEN := Nat.mul_le_mul_right _ (by omega)
      rw [Nat.succ_mul] at this
      omega
    · omega
    · rfl

/-- A body whose parts are the addresses of a list consists of them. -/
theorem addresses_eq {body : Block Byte}
    (h : ∀ j (hj : j < list.length), body.load (j * ADDR_LEN) ADDR_LEN = (list[j]).data) :
    addresses list.length body = list := by
  refine List.ext_getElem (by simp [addresses]) fun j hj hj' => ?_
  simp only [addresses, List.getElem_map, List.getElem_range]
  exact IpaddrDummy.ext (h j hj')

end Copy

end SessionProcessor

/-- The entries of the peer list that count. -/
def PhyInterfaces.peers (inf : PhyInterfaces) : List IpaddrDummy :=
  (inf.peer_addressList.getD []).take inf.peer_addressCount.toNat

/-- The number of interfaces is `n` throughout a step: `getInfCount` is called
    once for the size, and for each test of the loop. -/
def Env.InfCount (env : Env) (n : ℕ) : Prop :=
  n + 2 ≤ env.infCount.length ∧ ∀ c ∈ env.infCount, c = n

namespace Env.InfCount

variable {env : Env} {n : ℕ} (h : env.InfCount n)

include h

/-- The size is computed from the first answer, and does not overflow if a capsule has room. -/
theorem toNat_size (hfit : HEADER_SPACE + n * ADDR_LEN ≤ CHUNK) :
    (BitVec.ofInt 16 (ADDR_LEN * (env.infCount.headD 0 : ℤ))).toNat = n * ADDR_LEN := by
  obtain ⟨hlen, hconst⟩ := h
  obtain ⟨m, counts, hcounts⟩ := List.exists_cons_of_ne_nil
    (List.ne_nil_of_length_pos (by omega : 0 < env.infCount.length))
  obtain rfl : m = n := hconst m (by simp [hcounts])
  rw [hcounts, List.headD_cons, ← Nat.cast_mul, BitVec.ofInt_natCast, BitVec.toNat_ofNat,
    Nat.mul_comm]
  exact Nat.mod_eq_of_lt (lt_of_le_of_lt (Nat.le_of_add_left_le hfit) (by decide))

/-- The loop copying the addresses gets all its answers. -/
theorem le_length_tail (i : ℕ) : n - i ≤ env.infCount.tail.length := by
  have hlen := h.1
  rw [List.length_tail]
  omega

/-- An address of the peer list is an advertised one. -/
theorem eq_of_mem_tail {c : ℕ} (hc : c ∈ env.infCount.tail) : c = n :=
  h.2 c (List.mem_of_mem_tail hc)

end Env.InfCount

namespace SessionProcessor

variable (bo : ByteOrder) (env : Env) {E : Halt → Process → Prop} {p : Process}

/-- The peer list a buffer leads to: what the loop makes of its addresses. -/
theorem peerScan_eq (buf : MemBuff) :
    let l := addresses (buf.data.header.capSize.toNat / ADDR_LEN) buf.data.body
    peerScan env buf =
      { list := shift env.past false l
        count := l.length - l.countP IpaddrDummy.isLoopback
        localhost_found := l.any IpaddrDummy.isLoopback
        reads := readsFrom 0 false l } := by
  intro l
  have hlen : l.length = buf.data.header.capSize.toNat / ADDR_LEN := by simp [l, addresses]
  rw [← removeLoopback_eq env.past l, hlen]
  rfl

/-- The peer list after the capsule with the addresses. -/
theorem peers_receiveAddresses (buf : MemBuff) :
    let l := addresses (buf.data.header.capSize.toNat / ADDR_LEN) buf.data.body
    (receiveAddresses env buf p).interfaces.peers =
      (shift env.past false l).take (l.length - l.countP IpaddrDummy.isLoopback) := by
  intro l
  have hle : l.countP IpaddrDummy.isLoopback ≤ l.length := List.countP_le_length
  rw [PhyInterfaces.peers, receiveAddresses_interfaces_peer_addressList,
    receiveAddresses_interfaces_peer_addressCount, peerScan_eq]
  show List.take ((l.length : ℤ) - l.countP IpaddrDummy.isLoopback).toNat _ = _
  congr 1
  omega

/-- In the states `setup` and `connected`, the addresses are put in the body. -/
theorem exists_advertised {code : StateCodes} (hcode : code = .setup ∨ code = .connected)
    (p : Process) (cap : Capsule) (par : Params) :
    ∃ (cap' : Capsule) (p' : Process), p'.interfaces = p.interfaces ∧ p'.io = p.io ∧
      cap'.header.capSize = BitVec.ofInt 16 (ADDR_LEN * env.infCount.headD 0) ∧
      cap'.body = copyAddresses p.interfaces.addressList env.past 0 env.infCount.tail cap.body ∧
      ∀ Q, wp (setCapParams env cap par code) Q E p ↔ Q cap' p' := by
  rcases hcode with rfl | rfl
  · exact ⟨_, p.nextCapsule, rfl, rfl, rfl, rfl, fun Q => wp_setCapParams_setup env cap par⟩
  · exact ⟨_, (p.setWinSize (BitVec.ofNat 16 WIN_SIZ)).nextCapsule, rfl, rfl, rfl, rfl,
      fun Q => wp_setCapParams_connected env cap par⟩

/-- In the states `setup` and `connected`, the addresses are taken from the
    body. -/
theorem exists_processed {code : StateCodes} (hcode : code = .setup ∨ code = .connected)
    (p : Process) (buf : MemBuff) :
    ∃ p' : Process, p'.interfaces = (receiveAddresses env buf p).interfaces ∧
      ∀ Q, wp (process env buf code) Q E p ↔ Q () p' := by
  rcases hcode with rfl | rfl
  · exact ⟨receiveAddresses env buf p, rfl, fun Q => Session.wp_process_setup env buf⟩
  · exact ⟨receiveAddresses env buf (p.setWinSize (buf.data.header.capWinSiz.setWidth 16)), rfl,
      fun Q => Session.wp_process_connected env buf⟩

/-! ## The exchange -/

/-- Advertising the addresses from `p` to `q`: the capsule `cap` is given its
    parameters and sent, and what was sent is pulled and processed, which leaves
    the peer list `l`. -/
def Exchanges (p q : Process) (dir : StateDirection) (code : StateCodes) (cap : Capsule)
    (par : Params) (l : List IpaddrDummy) : Prop :=
  wp (do
      let cap ← setCapParams env cap par code
      Session.sendState bo env code dir cap)
    (fun _ p' => ∃ d, p'.out = p.out ++ [d] ∧ ∀ env' : Env, env'.datagram = some d →
      wp (do
          let buf ← Gateway.pull bo env'
          process env' buf code)
        (fun _ q' => q'.interfaces.peers = l) (fun _ _ => False) q)
    (fun _ _ => False) p

/-- The buffer an advertised list is pulled in consists of its addresses. -/
theorem addresses_pulled {q : Process} {list : List IpaddrDummy} {cap : Capsule}
    (hq : q.rxFactory.chunkSize = CHUNK) (hfit : HEADER_SPACE + list.length * ADDR_LEN ≤ CHUNK)
    (hinf : env.InfCount list.length) {body : Block Byte}
    (hsize : cap.header.capSize = BitVec.ofInt 16 (ADDR_LEN * env.infCount.headD 0))
    (hbody : cap.body = copyAddresses list past 0 env.infCount.tail body) (env' : Env) :
    let buf := Gateway.pulled bo env' q (cap.wire bo)
    addresses (buf.data.header.capSize.toNat / ADDR_LEN) buf.data.body = list := by
  have hcap : cap.header.capSize.toNat = list.length * ADDR_LEN := by
    rw [hsize, hinf.toNat_size hfit]
  intro buf
  have hle : (cap.body.load HEADER_SPACE cap.header.capSize.toNat).length + HEADER_SPACE ≤ CHUNK := by
    rw [Block.length_load, hcap, Nat.add_comm]
    exact hfit
  obtain ⟨hheader, hpayload, -⟩ := @Gateway.pulled_wire bo env' _ hq cap.header _ hle
  have hbuf : buf.data.header = cap.header := hheader
  have hbytes : buf.data.body.load 0 (list.length * ADDR_LEN) =
      cap.body.load HEADER_SPACE (list.length * ADDR_LEN) := by
    rw [Block.length_load] at hpayload
    rw [← hcap]
    exact hpayload
  rw [hbuf, hcap, Nat.mul_div_cancel _ (by decide)]
  refine addresses_eq list fun j hj => ?_
  have hend : j * ADDR_LEN + ADDR_LEN ≤ list.length * ADDR_LEN := by
    have : (j + 1) * ADDR_LEN ≤ list.length * ADDR_LEN := Nat.mul_le_mul_right _ hj
    rwa [Nat.succ_mul] at this
  have hpart : buf.data.body.load (j * ADDR_LEN) ADDR_LEN =
      cap.body.load (HEADER_SPACE + j * ADDR_LEN) ADDR_LEN := by
    have hmin : min ADDR_LEN (list.length * ADDR_LEN - j * ADDR_LEN) = ADDR_LEN :=
      Nat.min_eq_left (by omega)
    have := congrArg (fun bs => (bs.drop (j * ADDR_LEN)).take ADDR_LEN) hbytes
    simpa only [Block.drop_load, Block.take_load, Nat.zero_add, hmin] using this
  rw [hpart, hbody, load_copyAddresses list (fun _ => hinf.eq_of_mem_tail) (hinf.le_length_tail 0)
    hj, if_pos (Nat.zero_le j)]

/-- The capsule is sent, whoever sends. -/
theorem wp_sendState {Q : Unit → Process → Prop} (hsend : env.sendto = true)
    (hp : ¬p.interfaces.NoAddress) (code : StateCodes) (dir : StateDirection) (cap : Capsule) :
    wp (Session.sendState bo env code dir cap) Q E p ↔ Q () (p.send env (cap.wire bo)) := by
  cases dir with
  | TX => rw [Session.wp_sendState_tx, Gateway.wp_send, if_neg hp, if_pos hsend]
  | RX => rw [Session.wp_sendState_rx, Gateway.wp_chunkWrite, if_neg hp]

/-- What the peer is left with is what the loop makes of the advertised list. -/
theorem exchanges_iff {q : Process} {code : StateCodes} {list : List IpaddrDummy}
    (hlist : p.interfaces.addressList = list) (hq : q.rxFactory.chunkSize = CHUNK)
    (hfit : HEADER_SPACE + list.length * ADDR_LEN ≤ CHUNK) (hinf : env.InfCount list.length)
    (hcode : code = .setup ∨ code = .connected) (hsend : env.sendto = true)
    (hp : ¬p.interfaces.NoAddress) (dir : StateDirection) (cap : Capsule) (par : Params)
    (l : List IpaddrDummy) :
    Exchanges bo env p q dir code cap par l ↔ ∀ past : IpaddrDummy,
      (shift past false list).take (list.length - list.countP IpaddrDummy.isLoopback) = l := by
  obtain ⟨cap', p', hinter, hio, hsize, hbody, hset⟩ :=
    exists_advertised env (E := fun _ _ => False) hcode p cap par
  have hp' : ¬p'.interfaces.NoAddress := hinter ▸ hp
  have hout : (p'.send env (cap'.wire bo)).out = p.out ++ [cap'.wire bo] := by
    simp [Process.out, hsend, hio]
  have hpeers : ∀ env' : Env, env'.datagram = some (cap'.wire bo) →
      (wp (do
          let buf ← Gateway.pull bo env'
          process env' buf code)
        (fun _ q' => q'.interfaces.peers = l) (fun _ _ => False) q ↔
      (shift env'.past false list).take
        (list.length - list.countP IpaddrDummy.isLoopback) = l) := by
    intro env' hd
    obtain ⟨q', hq', hprocess⟩ := exists_processed env' (E := fun _ _ => False) hcode
      (Gateway.afterPull bo env' q (cap'.wire bo)) (Gateway.pulled bo env' q (cap'.wire bo))
    rw [wp_bind, Gateway.wp_pull bo env' hd, hprocess, hq', peers_receiveAddresses,
      addresses_pulled bo env hq hfit hinf hsize (hlist ▸ hbody) env']
  rw [Exchanges, wp_bind, hset, wp_sendState bo env hsend hp', hout]
  constructor
  · rintro ⟨d, hd, h⟩ past
    obtain rfl : cap'.wire bo = d := by simpa using hd
    let env' : Env := { Env.plain (some (cap'.wire bo)) [] with past }
    exact (hpeers env' rfl).1 (h env' rfl)
  · exact fun h => ⟨_, rfl, fun env' hd => (hpeers env' hd).2 (h env'.past)⟩

/-- The address exchange leaves the advertised addresses other than the loopback
    addresses if and only if, after the first loopback address, those that remain
    come last. -/
theorem exchanges_filter_iff {q : Process} {code : StateCodes} {list : List IpaddrDummy}
    (hlist : p.interfaces.addressList = list) (hq : q.rxFactory.chunkSize = CHUNK)
    (hfit : HEADER_SPACE + list.length * ADDR_LEN ≤ CHUNK) (hinf : env.InfCount list.length)
    (hcode : code = .setup ∨ code = .connected) (hsend : env.sendto = true)
    (hp : ¬p.interfaces.NoAddress) (dir : StateDirection) (cap : Capsule) (par : Params) :
    Exchanges bo env p q dir code cap par (list.filter fun a => !a.isLoopback) ↔
      LoopbacksLast list := by
  rw [exchanges_iff bo env hlist hq hfit hinf hcode hsend hp]
  simp only [take_shift_iff]
  exact ⟨fun h => h env.past, fun h _ => h⟩

/-- `"127.0.0.1"`. -/
def loopback : IpaddrDummy := ⟨loopbackText ++ List.replicate 5 0, rfl⟩

/-- `"10.0.0.1"`. -/
def private10 : IpaddrDummy := ⟨[49, 48, 46, 48, 46, 48, 46, 49] ++ List.replicate 7 0, rfl⟩

/-- A process with the given interfaces. -/
def host (list : List IpaddrDummy) : Process :=
  .init .TX {} list { fmode := .IN, fs := {} } { fmode := .OUT, fs := {} }

/-- A single loopback address is removed. -/
theorem exchanges_single :
    Exchanges .little (.plain none [2, 2, 2, 2]) (host [loopback, private10]) (host []) .TX .setup
      ⟨{}, fun _ => 0⟩ {} ([loopback, private10].filter fun a => !a.isLoopback) :=
  (exchanges_filter_iff .little (.plain none [2, 2, 2, 2]) rfl rfl (by decide)
    ⟨by decide, by decide⟩ (.inl rfl) rfl (fun h => h.1 rfl) _ _ _).2 (by rw [LoopbacksLast]; decide)

/-- Of two loopback addresses, one stays, in the place of an address that is
    lost. -/
theorem not_exchanges_two :
    ¬Exchanges .little (.plain none [3, 3, 3, 3, 3]) (host [loopback, loopback, private10])
      (host []) .TX .setup ⟨{}, fun _ => 0⟩ {}
      ([loopback, loopback, private10].filter fun a => !a.isLoopback) := by
  intro h
  have := (exchanges_iff .little (.plain none [3, 3, 3, 3, 3]) rfl rfl (by decide)
    ⟨by decide, by decide⟩ (.inl rfl) rfl (fun h => h.1 rfl) _ _ _ _).1 h loopback
  exact absurd this (by decide)

end SessionProcessor

end Udm
