import Udm.Exchange.Liveness
import Udm.Startup

/-!
# From the command lines to the file

The exchange of the sessions that the two programs start is the exchange of a file, if the server
can read it, and the client can write its own (`start_eq`). So what holds of the exchange of a file
holds of the programs: over a network that loses and reorders nothing, the client ends with a copy
of the file of the server, exactly if the length of the file allows it (`copies_iff`).

The conditions are those under which the programs get to their sessions (`System.Starts`), that the
lists which their hosts make can be advertised, and that the run is a fair one.
-/

namespace Udm

namespace System

open Exchange

variable {bo : ByteOrder} {α : Type} {srv cl : System α} {argvS argvC : List (List Byte)}
  {fdsS fdsS' fdsC fdsC' : ℤ → Descriptor α} {p q : Process} {f : File}
  {nameS service filename nameC ipaddr serviceC sink : List Byte}
  {sched : ℕ → Env × Event}

/-- The sessions that the programs start, on the lists that their hosts have made. -/
theorem start_eq (hp : srv.Starts bo (srv.srv [nameS, service, filename]) fdsS p fdsS')
    (hq : cl.Starts bo (cl.cl [nameC, ipaddr, serviceC, sink]) fdsC q fdsC')
    (hf : srv.file filename = some f) (hreadable : srv.readable filename = true)
    (hwritable : cl.writable sink = true) :
    start p q = fileExchange f {} {} p.interfaces.addressList q.interfaces.addressList
      { fmode := .OUT, fs := {} } { fmode := .OUT, fs := {} } 0 := by
  obtain ⟨_, listS, hreachesS, -, rfl⟩ := hp
  obtain ⟨_, listC, hreachesC, -, rfl⟩ := hq
  obtain ⟨-, -, -, -, -, fds, -, -, -, -, -, hsend⟩ := (reaches_srv _ _ _ _ _).1 hreachesS
  obtain ⟨-, filename', f', hargs, hf', -, rfl⟩ := (reaches_send _ _ _).1 hsend
  obtain rfl : filename = filename' := List.head_eq_of_cons_eq hargs
  obtain rfl : f = f' := Option.some.inj (hf.symm.trans hf')
  obtain ⟨-, -, -, -, -, -, -, -, -, -, -, rfl⟩ := (reaches_cl _ _ _ _ _ _).1 hreachesC
  rw [reading, hreadable, output, hwritable]
  rfl

/-- The two programs copy a file, over a network that loses and reorders nothing, exactly if it is
    neither empty nor a whole number of chunks, and has less than `MAX_CHUNKS` chunks: in the end,
    both sessions have returned, and the file of the client holds the bytes of that of the
    server. -/
theorem copies_iff (hp : srv.Starts bo (srv.srv [nameS, service, filename]) fdsS p fdsS')
    (hq : cl.Starts bo (cl.cl [nameC, ipaddr, serviceC, sink]) fdsC q fdsC')
    (hf : srv.file filename = some f) (hreadable : srv.readable filename = true)
    (hwritable : cl.writable sink = true) (htx : Advertisable p.interfaces.addressList)
    (hrx : Advertisable q.interfaces.addressList)
    (h : FairRun bo p.interfaces.addressList q.interfaces.addressList (start p q) sched)
    (hin : ∀ k, Network.InOrder (trace bo (start p q) sched k) (sched k).2) :
    (∃ n, ∀ m ≥ n, (trace bo (start p q) sched m).tx.Completed ∧
        (trace bo (start p q) sched m).rx.Completed ∧
        (trace bo (start p q) sched m).rx.conf.state.sink = f.bytes) ↔
      ¬PAYLOAD ∣ f.bytes.length ∧ f.bytes.length < MAX_CHUNKS * PAYLOAD := by
  rw [start_eq hp hq hf hreadable hwritable] at h hin ⊢
  obtain ⟨n, hover, hstays⟩ := eventually_over (goes_start bo f _ _) htx hrx h
  rw [← File.endsIn_iff]
  constructor
  · rintro ⟨m, hm⟩
    have hcompleted := (hm (max n m) (le_max_right n m)).1
    rw [hstays _ (le_max_left n m)] at hcompleted
    exact hover.endsIn hcompleted
  · rintro ⟨k, hk, hend⟩
    obtain ⟨htx', hrx'⟩ := hover.completed hend hk
    refine ⟨n, fun m hm => ?_⟩
    rw [hstays m hm]
    exact ⟨htx', hrx', h.sink_eq hin n hrx'⟩

/-- The session that the client starts on a host with one address. -/
def client : Process :=
  IoContext.newRx.udm_rxstart IoContext.newSink [SessionProcessor.private10]

/-- Two programs on such hosts copy the file. -/
theorem copies_oneByte : ∃ n, ∀ m ≥ n,
    (trace .little (start oneByteSender client) turns m).tx.Completed ∧
      (trace .little (start oneByteSender client) turns m).rx.Completed ∧
      (trace .little (start oneByteSender client) turns m).rx.conf.state.sink = [7] := by
  have haddr (host : Option (List Byte)) :
      (numeric oneByteFile).getaddrinfo host (to_string (4000 : ℤ)) = some ((), []) := by
    rw [getaddrinfo_numeric, if_pos (by decide +kernel)]
  have hint : to_string (int16 4000) = to_string 4000 := by decide +kernel
  have hp : (numeric oneByteFile).Starts .little
      ((numeric oneByteFile).srv [[], to_string 4000, []]) (fun _ => .closed) oneByteSender
      (Function.update (fun _ => .closed) 3 (.opened (some ()))) :=
    ⟨_, _, (reaches_srv _ _ _ _ _).2 ⟨4000, (), [], 3, (), _, atoi_to_string (by decide),
      by decide +kernel, by rw [hint, haddr], rfl, .inr ⟨by decide, rfl, rfl⟩,
      (reaches_send _ _ _).2 ⟨rfl, [], oneByteFile, rfl, rfl, by decide, rfl⟩⟩,
    lists_numeric _, rfl⟩
  have hq : (numeric oneByteFile).Starts .little
      ((numeric oneByteFile).cl [[], [], to_string 4000, []]) (fun _ => .closed) client
      (Function.update (fun _ => .closed) 3 (.opened none)) :=
    ⟨_, _, (reaches_cl _ _ _ _ _ _).2 ⟨(), [], 3, (), by decide +kernel, by decide +kernel,
      haddr _, rfl, rfl, by decide, rfl, rfl⟩, lists_numeric _, rfl⟩
  exact (copies_iff hp hq rfl rfl rfl advertisable_private10 advertisable_private10
    (fairRun_turns (start oneByteSender client)) fun k => inOrder_turns _ k).2
      ⟨by decide, by decide⟩

end System

end Udm
