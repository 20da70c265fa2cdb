import Udm.Exchange.Liveness
import Udm.Exchange.Lockstep
import Udm.Session.Disk

/-!
# Exchanges with a disk that fails

Neither side of an exchange sees what becomes of the writes (`alike_disks`): the same
datagrams are under way as if they all succeeded. So both sides return exactly where they
would return then, also if the sink holds only the first bytes of the file, or nothing
(`concludes_unstored_iff`).

Two exchanges are compared event by event: the one with the failing disk, and the one with
the same events whose writes succeed (`stored`). The relation `AlikeExchanges` says that they
differ in their disks only, and relates the sinks of the two receivers. Two of these relations
are used:

* `DataSource.Behind`: the failing sink has the first bytes of the other (`behind_trace`);
* a sink that could not be opened stays empty, whatever the other gets (`appends_lost`).

What is known of the exchange that stores everything is then known of the other.
-/

namespace Udm

open Session

/-- The system calls of a step succeed, but for its writes, and it finds as many interfaces as
    there are addresses. -/
structure Env.Answers (list : List IpaddrDummy) (env : Env) : Prop where
  /-- The name of the peer is looked up. -/
  getnameinfo : env.getnameinfo = true
  /-- A datagram is sent. -/
  sendto : env.sendto = true
  /-- As many interfaces are counted as the list has addresses. -/
  infCount : env.InfCount list.length

namespace Exchange

variable {bo : ByteOrder} {S : DataSource → DataSource → Prop}
  {O : WriteOutcome → WriteOutcome → Prop}

/-- The same inputs but for the outcomes of the writes. -/
def Writing (O : WriteOutcome → WriteOutcome → Prop) (env env' : Env) : Prop :=
  ∃ write, env' = env.writing write ∧ ∀ i j, O (env.write i) (write j)

/-- Processes that differ in their disks only are seen alike. -/
theorem seenAlike_disk : SeenAlike Eq (Process.Alike S) where
  returned := Process.Alike.returned_eq
  awaits := by
    rintro p _ ⟨k, rfl, -⟩
    rfl
  out := by
    rintro p _ ⟨k, rfl, -⟩
    exact List.forall₂_refl _

/-- Whether a site has returned does not depend on its disk. -/
theorem completed_iff {dir : StateDirection} {t t' : Site}
    (h : t.Alike dir (Process.Alike S) t') : t.Completed ↔ t'.Completed := by
  rw [Site.Completed, Site.Completed, h.conf.1, h.conf.2.returned_eq]

/-- Such sites send the same. -/
theorem alike_disks {dir : StateDirection} (hS : Appends S O) : (Site.machine bo).Alike
    (Site.machine bo) Eq (Writing O) (Site.Alike dir (Process.Alike S)) := by
  refine Site.alike_machine seenAlike_disk ?_
  rintro p q env _ d d' - h ⟨write, rfl, hO⟩ hd
  obtain rfl : d = d' := by
    cases hd with
    | some heq => rw [heq]
    | none => rfl
  have hblind : Blind S (Session.step bo { env with datagram := d })
      (Session.step bo { env.writing write with datagram := d }) := blind_step bo hS hO
  exact hblind p q h

variable {f : File} {txStatics rxStatics : Statics} {txList rxList : List IpaddrDummy}
  {sink source d : DataSource} {sched : ℕ → Env × Event}

/-- The same events, with writes that succeed. -/
def stored (sched : ℕ → Env × Event) (n : ℕ) : Env × Event :=
  ((sched n).1.writing fun _ => .written, (sched n).2)

/-- The parties of two exchanges differ in their disks only, and the sinks of the receivers are
    related by `S`. -/
abbrev AlikeExchanges (S : DataSource → DataSource → Prop) : Exchange → Exchange → Prop :=
  Network.Rel Eq (Site.Alike .TX (Process.Alike fun _ _ => True))
    (Site.Alike .RX (Process.Alike S))

/-- An exchange with any sink at the receiver, and one whose writes succeed. -/
theorem alike_trace (hS : Appends S fun _ o' => o' = .written) {d' : DataSource} (hd : S d d')
    (n : ℕ) : AlikeExchanges S
      (trace bo (start (fileSender f txStatics txList sink)
        (.init .RX rxStatics rxList source d)) sched n)
      (trace bo (start (fileSender f txStatics txList sink)
        (.init .RX rxStatics rxList source d')) (stored sched) n) := by
  have htx : (Site.machine bo).Alike (Site.machine bo) Eq
      (Writing fun _ o' => o' = .written) (Site.Alike .TX (Process.Alike fun _ _ => True)) :=
    alike_disks fun _ _ _ _ _ _ _ => trivial
  have hrx : (Site.machine bo).Alike (Site.machine bo) Eq
      (Writing fun _ o' => o' = .written) (Site.Alike .RX (Process.Alike S)) := alike_disks hS
  have hstart : AlikeExchanges S
      (start (fileSender f txStatics txList sink) (.init .RX rxStatics rxList source d))
      (start (fileSender f txStatics txList sink) (.init .RX rxStatics rxList source d')) :=
    ⟨Site.alike_start (steady_init _ _ _ _ _) rfl
        ⟨(fileSender f txStatics txList sink).disk, rfl, trivial⟩,
      Site.alike_start (steady_init _ _ _ _ _) rfl ⟨⟨d', 0, 0, 0, []⟩, rfl, hd⟩,
      Channel.rel_empty, Channel.rel_empty⟩
  -- The two runs have the same events, and the writes of the second one succeed.
  have hwriting (n : ℕ) : Writing (fun _ o' => o' = .written) (sched n).1 (stored sched n).1 :=
    ⟨_, rfl, fun _ _ => rfl⟩
  have hmatches (n : ℕ) : Network.Matches (Writing fun _ o' => o' = .written)
      (Writing fun _ o' => o' = .written) (sched n).1 (stored sched n).1 (sched n).2 := by
    cases (sched n).2 with
    | tx | rx | failTx | failRx => exact hwriting n
    | loseTx | loseRx => exact trivial
  exact hstart.run htx hrx (fun n => ⟨hmatches n, rfl⟩) n

/-- A sink that holds nothing, and one whose writes succeed. -/
theorem behind_trace (hd : d.fmode = .OUT) (hempty : d.fs.content = []) (n : ℕ) :
    AlikeExchanges DataSource.Behind
      (trace bo (start (fileSender f txStatics txList sink)
        (.init .RX rxStatics rxList source d)) sched n)
      (trace bo (fileExchange f txStatics rxStatics txList rxList sink source 0)
        (stored sched) n) :=
  alike_trace appends_behind ⟨hd, hempty ▸ List.nil_prefix, fun _ => ⟨rfl, hempty⟩⟩ n

/-- The network sees a fair run as one whose writes succeed. -/
theorem fairRun_stored {s₀ s₀' : Exchange}
    (halike : ∀ n, AlikeExchanges S (trace bo s₀ sched n) (trace bo s₀' (stored sched) n))
    (h : Network.Fair (Site.machine bo) (Site.machine bo) (Env.Answers txList) (Env.Answers rxList)
      Network.Lossless s₀ sched) : FairRun bo txList rxList s₀' (stored sched) := by
  have hserves {list : List IpaddrDummy} {env : Env} (henv : env.Answers list) :
      (env.writing fun _ => .written).Serves list :=
    ⟨⟨henv.getnameinfo, henv.sendto, fun _ => rfl⟩, henv.infCount⟩
  refine ⟨⟨fun n => ?_, fun n => (halike n).lossless_iff.1 (h.may n)⟩, h.tx, h.rx⟩
  have hsuits := h.suits n
  rw [stored]
  cases he : (sched n).2 with
  | tx | rx | failTx | failRx =>
    rw [he] at hsuits
    exact hserves hsuits
  | loseTx | loseRx => exact trivial

/-- A sink whose stream has failed stays empty. -/
theorem appends_lost : Appends (fun d _ => d.fs.failed = true ∧ d.fs.content = []) O := by
  rintro d d' o o' ⟨hfailed, hempty⟩ - b
  rw [DataSource.append]
  cases hm : d.fmode with
  | IN => exact ⟨hfailed, hempty⟩
  | OUT =>
    rw [DataFactory.writeStream]
    dsimp only
    rw [Fstream.write_of_failed hfailed]
    exact ⟨hfailed, hempty⟩

/-- In a fair exchange both sides return exactly as if all the writes succeeded, whatever becomes
    of them: if the file is neither empty nor a whole number of chunks, and has less than
    `MAX_CHUNKS` chunks. In order, the sink then holds the first bytes of the file, and all of
    them if its stream is good; if the sink could not be opened, it holds nothing. -/
theorem concludes_unstored_iff {s₀ : Exchange}
    (h₀ : s₀ = start (fileSender f txStatics txList sink) (.init .RX rxStatics rxList source d))
    (hd : d.fmode = .OUT) (hempty : d.fs.content = []) (htx : Advertisable txList)
    (hrx : Advertisable rxList) (h : Network.Fair (Site.machine bo) (Site.machine bo)
      (Env.Answers txList) (Env.Answers rxList) Network.Lossless s₀ sched) :
    (∃ n, ∀ m ≥ n, (trace bo s₀ sched m).tx.Completed ∧ (trace bo s₀ sched m).rx.Completed ∧
        ((∀ k, Network.InOrder (trace bo s₀ sched k) (sched k).2) →
          (trace bo s₀ sched m).rx.conf.state.sink <+: f.bytes ∧
            ((trace bo s₀ sched m).rx.conf.state.rxFactory.sourceData.fs.failed = false →
              (trace bo s₀ sched m).rx.conf.state.sink = f.bytes)) ∧
        (d.fs.failed = true → (trace bo s₀ sched m).rx.conf.state.sink = [])) ↔
      ¬PAYLOAD ∣ f.bytes.length ∧ f.bytes.length < MAX_CHUNKS * PAYLOAD := by
  subst h₀
  have halike (n : ℕ) := @behind_trace bo f txStatics rxStatics txList rxList sink source d sched
    hd hempty n
  have hfair := fairRun_stored halike h
  obtain ⟨n, hover, hstays⟩ := eventually_over (goes_start bo f txList rxList) htx hrx hfair
  rw [← File.endsIn_iff]
  constructor
  · rintro ⟨m, hm⟩
    have hcompleted := (completed_iff (halike _).tx).1 (hm (max n m) (le_max_right n m)).1
    rw [hstays _ (le_max_left n m)] at hcompleted
    exact hover.endsIn hcompleted
  · rintro ⟨k, hk, hend⟩
    obtain ⟨htx', hrx'⟩ := hover.completed hend hk
    refine ⟨n, fun m hm => ⟨?_, ?_, fun hin => ?_, fun hfailed => ?_⟩⟩
    · rw [completed_iff (halike m).tx, hstays m hm]
      exact htx'
    · rw [completed_iff (halike m).rx, hstays m hm]
      exact hrx'
    · -- The other exchange has the file.
      have hsink := hfair.sink_eq hin n hrx'
      rw [← hstays m hm] at hsink
      obtain ⟨-, k, hk, hbehind⟩ := (halike m).rx.conf
      have hstored : k.sourceData.fs.content = f.bytes := by
        rw [hk] at hsink
        exact hsink
      rw [← hstored]
      exact ⟨hbehind.isPrefix, fun hgood => (hbehind.good hgood).2⟩
    · obtain ⟨-, k, -, hlost⟩ := (@alike_trace bo _ f txStatics rxStatics txList rxList sink source
        d sched appends_lost d ⟨hfailed, hempty⟩ m).rx.conf
      exact hlost.2

/-- The turns, with writes that fail. -/
def failing (n : ℕ) : Env × Event := ((turns n).1.writing fun _ => .failed 0, (turns n).2)

/-- Taking turns with such writes is fair. -/
theorem fair_failing (s₀ : Exchange) : Network.Fair (Site.machine .little) (Site.machine .little)
    (Env.Answers [SessionProcessor.private10]) (Env.Answers [SessionProcessor.private10])
    Network.Lossless s₀ failing where
  suits := fun n => by
    have hanswers : Env.Answers [SessionProcessor.private10] (failing n).1 :=
      ⟨rfl, rfl, serves_plain.infCount⟩
    have hevent : (failing n).2 = (turns n).2 := rfl
    rw [hevent, turns]
    split_ifs
    exacts [hanswers, hanswers]
  may := fun n => (inOrder_turns _ n).lossless
  tx := (fairRun_turns s₀).tx
  rx := (fairRun_turns s₀).rx

/-- Both sides return, although the client could not open its file. -/
theorem unstored_oneByte :
    let s₀ := start oneByteSender
      (.init .RX {} [SessionProcessor.private10] { fmode := .IN, fs := {} }
        { fmode := .OUT, fs := { failed := true } })
    ∃ n, ∀ m ≥ n, (trace .little s₀ failing m).tx.Completed ∧
      (trace .little s₀ failing m).rx.Completed ∧
      (trace .little s₀ failing m).rx.conf.state.sink = [] := by
  intro s₀
  have h₀ : s₀ = start (fileSender oneByteFile {} [SessionProcessor.private10]
      { fmode := .OUT, fs := {} }) (.init .RX {} [SessionProcessor.private10]
        { fmode := .IN, fs := {} } { fmode := .OUT, fs := { failed := true } }) := rfl
  obtain ⟨n, hn⟩ := (concludes_unstored_iff h₀ rfl rfl advertisable_private10
    advertisable_private10 (fair_failing s₀)).2 ⟨by decide, by decide⟩
  exact ⟨n, fun m hm => ⟨(hn m hm).1, (hn m hm).2.1, (hn m hm).2.2.2 rfl⟩⟩

end Exchange

end Udm
