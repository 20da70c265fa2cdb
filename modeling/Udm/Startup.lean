import Udm.Connection
import Udm.Context.Reception
import Udm.Gateway.AddressList
import Udm.Library.Decimal

/-!
# The two programs

What the programs do before their session starts (`udmuser_srv.cpp`, `udmuser_cl.cpp`, and
`udm_socket`, `udm_bind`, `fetch_addresses`, `resolve` in `userclass.h`): the server makes a socket
for the first address of a list for which this is possible, and binds it; the client makes one in
the same way. The constructor of `PhyInterfaces` then makes the list of the addresses of the host,
and the session starts. `srv_starts_iff` and `cl_starts_iff` say from which command lines, and with
which answers of the operating system, a session starts, and which one.

The texts of the host and the service are copied with `strcpy` to arrays that have no room for their
NUL, so it is up to the allocator whether there is more behind them (`Fits`). The server looks for a
socket along its list, but then binds it to the first address of the list or to none. A port is kept
in a `short`: the number that is looked up is the one of the command line modulo `2 ^ 16`, and it is
negative from `2 ^ 15` on (`port_starts_iff`).

The operating system and the allocator are a structure of answers (`System`), over which the
programs are written with the same words as in the source. `Reaches` says that a program comes to
its session, and `Starts` adds the list of addresses, which the session is made with. The rules
`wp_obtainAddresses`, `wp_copyText` and `wp_udm_socket` tell what each call does, so that
`reaches_srv` and `reaches_cl` follow the programs call by call.
-/

namespace Udm

/-- The value of a `short` whose bits are the last ones of `x`. -/
def int16 (x : ℤ) : ℤ := (x + 2 ^ 15) % 2 ^ 16 - 2 ^ 15

/-- The first half of the values modulo `2 ^ 16` are kept, and the others become negative. -/
theorem int16_natCast (n : ℕ) :
    int16 n = if n % 2 ^ 16 < 2 ^ 15 then ((n % 2 ^ 16 : ℕ) : ℤ)
      else -((2 ^ 16 - n % 2 ^ 16 : ℕ) : ℤ) := by
  rw [int16]
  split_ifs <;> omega

/-- What the operating system answers to a program that starts. -/
structure System (α : Type) where
  /-- `getaddrinfo`, of a host, if any, and a service: a list that is not empty. -/
  getaddrinfo : Option (List Byte) → List Byte → Option (α × List α)
  /-- The descriptor of a socket for an address, if one can be made. -/
  socket : α → Option ℕ
  /-- A socket made for the first address can be bound to the second one. -/
  binds : α → α → Bool
  /-- The regular file with a name. -/
  file : List Byte → Option File
  /-- The file with a name can be opened for reading. -/
  readable : List Byte → Bool
  /-- The file with a name can be opened for writing. -/
  writable : List Byte → Bool
  /-- The bytes that can be stored in the first, second, ... array, by what it was made for. -/
  usable : ℕ → ℕ → ℕ
  /-- As many bytes as a `sockaddr_storage` has can be read from an address on. -/
  storage : α → Bool
  /-- What the constructor of `PhyInterfaces` is given. -/
  given : PhyInterfaces.Setting

/-- What `main` comes to: it returns, or a session starts, on the list of the addresses of the
    host. -/
inductive Outcome
  | returned (code : ℤ)
  | session (start : List IpaddrDummy → Process)

namespace System

open Descriptor

variable {α : Type} (sys : System α)

/-! ## Files -/

/-- The stream of a file that could be opened, or could not. -/
def reading (readable : Bool) (f : File) : DataSource :=
  { f.source with fs := { content := f.bytes, failed := !readable } }

/-- A `DataSource` that was opened to be read. `file_size` throws without a file. -/
def input (filename : List Byte) : Option DataSource :=
  (sys.file filename).map (reading (sys.readable filename))

/-- A `DataSource` that was opened to be written, and is empty then. -/
def output (filename : List Byte) : DataSource where
  fmode := .OUT
  fs := { failed := !sys.writable filename }

/-! ## Sockets -/

/-- `obtainAddresses`. -/
def obtainAddresses (ip_addr : Option (List Byte)) (port : List Byte) : SocketProg α (α × List α) :=
  match sys.getaddrinfo ip_addr port with
  | none => throw .exit
  | some result => return result

/-- There is room for the NUL of the text, behind the array that was made for its characters. -/
def Fits (i : ℕ) (text : List Byte) : Prop := text.length < sys.usable i text.length

instance (i : ℕ) (text : List Byte) : Decidable (sys.Fits i text) := Nat.decLt _ _

/-- Copying a text with `strcpy` to the array `make_unique<char[]>(text.size())`. -/
def copyText (i : ℕ) (text : List Byte) : SocketProg α (List Byte) :=
  if sys.Fits i text then return text else throw .fault

/-- `fetch_addresses`. -/
def fetch_addresses (port : ℤ) : SocketProg α (α × List α) := do
  let p ← sys.copyText 0 (to_string port)
  sys.obtainAddresses none p

/-- `resolver::resolve`. The first address is copied to the one of the peer, a
    `sockaddr_storage`. -/
def resolve (ipaddr service : List Byte) : SocketProg α (α × List α) := do
  let ip ← sys.copyText 0 ipaddr
  let srv ← sys.copyText 1 service
  let (addr, next) ← sys.obtainAddresses (some ip) srv
  if sys.storage addr then return (addr, next) else throw .fault

/-- `udm_socket`: the descriptor, and the address it was made for. -/
def udm_socket : List α → SocketProg α (ℤ × α)
  | [] => throw .exit
  | rp :: result =>
    match sys.socket rp with
    | none => udm_socket result
    | some sfd => do
      modify fun fds => Function.update fds (sfd : ℤ) (.opened none)
      return (sfd, rp)

/-! ## The programs -/

/-- The loop of `main` of `udmuser_srv.cpp`, which is left after one transfer, and what is thrown
    in it. Without a file name on the command line, a default one is copied to where a pointer
    without value points. -/
def send (args : List (List Byte)) : SocketProg α Outcome :=
  match args with
  | [filename] =>
    match sys.input filename with
    | none => return .returned 0
    | some file =>
      if 0 < file.fileSize then
        return .session fun list => (IoContext.new.set_source file).run list
      else return .returned 0
  | _ => throw .fault

/-- `main` of `udmuser_srv.cpp`. -/
def srv (argv : List (List Byte)) : SocketProg α Outcome :=
  match argv with
  | _ :: service :: args => do
    let some port := atoi service | throw .fault
    let (addr, next) ← sys.fetch_addresses (int16 port)
    let (sfd, rp) ← sys.udm_socket (addr :: next)
    udm_bind (sys.binds rp) sfd addr next
    sys.send args
  | _ => return .returned 1

/-- `main` of `udmuser_cl.cpp`. -/
def cl (argv : List (List Byte)) : SocketProg α Outcome :=
  match argv with
  | [_, addr, service, filename] => do
    let (addr, next) ← sys.resolve addr service
    let (sfd, _) ← sys.udm_socket (addr :: next)
    if sfd ≤ 0 then return .returned 0
    else return .session (IoContext.newRx.udm_rxstart (sys.output filename))
  | _ => return .returned 1

/-- The program comes to where it starts a session, with the descriptors `fds'`. -/
def Reaches (main : SocketProg α Outcome) (fds : ℤ → Descriptor α)
    (start : List IpaddrDummy → Process) (fds' : ℤ → Descriptor α) : Prop :=
  wp main (fun o fds'' => o = .session start ∧ fds'' = fds') (fun _ _ => False) fds

/-- The host can make the list of its addresses. -/
def Lists (bo : ByteOrder) (list : List IpaddrDummy) : Prop :=
  ∃ infc, sys.given.Constructs bo infc list

/-- The program starts the session of `p`, with the descriptors `fds'`. -/
def Starts (bo : ByteOrder) (main : SocketProg α Outcome) (fds : ℤ → Descriptor α) (p : Process)
    (fds' : ℤ → Descriptor α) : Prop :=
  ∃ start list, Reaches main fds start fds' ∧ sys.Lists bo list ∧ p = start list

/-- The first socket that can be made for an address of a list. -/
def firstSocket (result : List α) : Option (ℕ × α) :=
  result.findSome? fun rp => (sys.socket rp).map (·, rp)

variable {sys} {E : Halt → (ℤ → Descriptor α) → Prop} {fds : ℤ → Descriptor α}

/-- Without an address for the host and the service, the program exits. -/
theorem wp_obtainAddresses {Q : α × List α → (ℤ → Descriptor α) → Prop}
    (ip_addr : Option (List Byte)) (port : List Byte) :
    wp (sys.obtainAddresses ip_addr port) Q E fds ↔
      match sys.getaddrinfo ip_addr port with
      | none => E .exit fds
      | some result => Q result fds := by
  rw [obtainAddresses]
  split <;> rfl

/-- A text that does not fit is written past its array. -/
theorem wp_copyText {Q : List Byte → (ℤ → Descriptor α) → Prop} (i : ℕ) (text : List Byte) :
    wp (sys.copyText i text) Q E fds ↔ if sys.Fits i text then Q text fds else E .fault fds := by
  rw [copyText, wp_ite]
  rfl

/-- The first socket that can be made is made, or the program exits. -/
theorem wp_udm_socket {Q : ℤ × α → (ℤ → Descriptor α) → Prop} (result : List α) :
    wp (sys.udm_socket result) Q E fds ↔
      match sys.firstSocket result with
      | none => E .exit fds
      | some (sfd, rp) => Q (sfd, rp) (Function.update fds sfd (.opened none)) := by
  induction result with
  | nil => rfl
  | cons rp result ih =>
    rw [udm_socket, firstSocket, List.findSome?_cons]
    cases sys.socket rp with
    | none => exact ih
    | some sfd => rfl

/-- A new socket is bound to the first address, or to none. -/
theorem wp_udm_bind {Q : Unit → (ℤ → Descriptor α) → Prop} {binds : α → Bool} {sfd : ℕ} {addr : α}
    {next : List α} (h : fds sfd = .opened none) :
    wp (udm_bind binds sfd addr next) Q E fds ↔
      if sfd = 0 then Q () fds
      else if binds addr then Q () (Function.update fds sfd (.opened (some addr)))
      else E .exit (Function.update fds sfd .closed) := by
  rw [udm_bind, wp_ite]
  rcases Nat.eq_zero_or_pos sfd with rfl | hpos
  · rfl
  · rw [if_pos (Int.natCast_pos.2 hpos), if_neg hpos.ne', bindAddress_opened h]

/-! ## What starts -/

/-- The session of the server sends the file. -/
theorem reaches_send (args : List (List Byte)) (start : List IpaddrDummy → Process)
    (fds' : ℤ → Descriptor α) :
    Reaches (sys.send args) fds start fds' ↔ fds = fds' ∧
      ∃ filename f, args = [filename] ∧ sys.file filename = some f ∧ f.bytes ≠ [] ∧
        start = (IoContext.new.set_source (reading (sys.readable filename) f)).run := by
  rcases args with - | ⟨filename, - | ⟨arg, args⟩⟩
  · simp [Reaches, send]
  swap
  · simp [Reaches, send]
  rcases hf : sys.file filename with - | f
  · simp [Reaches, send, input, hf]
  have hsize : 0 < (reading (sys.readable filename) f).fileSize ↔ f.bytes ≠ [] :=
    List.length_pos_iff_ne_nil
  by_cases hne : f.bytes = []
  · simp [Reaches, send, input, hf, hsize, hne]
  · simp [Reaches, send, input, hf, hsize, hne, and_comm, eq_comm]

/-- The server with a service on its command line: a socket is made for an address of the list,
    and bound to the first one, unless its descriptor is 0. -/
theorem reaches_srv (name service : List Byte) (args : List (List Byte))
    (start : List IpaddrDummy → Process) (fds' : ℤ → Descriptor α) :
    Reaches (sys.srv (name :: service :: args)) fds start fds' ↔
      ∃ port addr next sfd rp fds'', atoi service = some port ∧
        sys.Fits 0 (to_string (int16 port)) ∧
        sys.getaddrinfo none (to_string (int16 port)) = some (addr, next) ∧
        sys.firstSocket (addr :: next) = some (sfd, rp) ∧
        (sfd = 0 ∧ fds'' = Function.update fds 0 (.opened none) ∨
          0 < sfd ∧ sys.binds rp addr = true ∧
            fds'' = Function.update fds sfd (.opened (some addr))) ∧
        Reaches (sys.send args) fds'' start fds' := by
  constructor
  · intro h
    rcases hport : atoi service with - | port
    · simp [Reaches, srv, hport] at h
    simp only [Reaches, srv, hport, wp_bind, fetch_addresses, wp_copyText] at h
    split_ifs at h with hfits
    simp only [wp_obtainAddresses] at h
    rcases haddr : sys.getaddrinfo none (to_string (int16 port)) with - | ⟨addr, next⟩
    · simp [haddr] at h
    simp only [haddr, wp_bind, wp_udm_socket] at h
    rcases hsocket : sys.firstSocket (addr :: next) with - | ⟨sfd, rp⟩
    · simp [hsocket] at h
    simp only [hsocket, wp_udm_bind (Function.update_self ..)] at h
    -- A descriptor of 0 is taken for one that could not be made, and is not bound.
    split_ifs at h with hzero hbinds
    · exact ⟨port, addr, next, sfd, rp, _, rfl, hfits, haddr, hsocket,
        .inl ⟨hzero, by rw [hzero]; rfl⟩, h⟩
    · exact ⟨port, addr, next, sfd, rp, _, rfl, hfits, haddr, hsocket,
        .inr ⟨Nat.pos_of_ne_zero hzero, hbinds, Function.update_idem ..⟩, h⟩
  · rintro ⟨port, addr, next, sfd, rp, fds'', hport, hfits, haddr, hsocket, hbind, h⟩
    simp only [Reaches, srv, hport, wp_bind, fetch_addresses, wp_copyText, if_pos hfits,
      wp_obtainAddresses, haddr, wp_udm_socket, hsocket, wp_udm_bind (Function.update_self ..)]
    rcases hbind with ⟨rfl, rfl⟩ | ⟨hpos, hbinds, rfl⟩
    · rw [if_pos rfl]
      exact h
    · rw [if_neg hpos.ne', if_pos hbinds, Function.update_idem]
      exact h

/-- The client with a file on its command line. -/
theorem reaches_cl (name ipaddr service filename : List Byte) (start : List IpaddrDummy → Process)
    (fds' : ℤ → Descriptor α) :
    Reaches (sys.cl [name, ipaddr, service, filename]) fds start fds' ↔
      ∃ addr next sfd rp, sys.Fits 0 ipaddr ∧ sys.Fits 1 service ∧
        sys.getaddrinfo (some ipaddr) service = some (addr, next) ∧ sys.storage addr = true ∧
        sys.firstSocket (addr :: next) = some (sfd, rp) ∧ 0 < sfd ∧
        fds' = Function.update fds sfd (.opened none) ∧
        start = IoContext.newRx.udm_rxstart (sys.output filename) := by
  constructor
  · intro h
    simp only [Reaches, cl, wp_bind, resolve, wp_copyText] at h
    split_ifs at h with hip hsrv
    simp only [wp_obtainAddresses] at h
    rcases haddr : sys.getaddrinfo (some ipaddr) service with - | ⟨addr, next⟩
    · simp [haddr] at h
    simp only [haddr, wp_ite] at h
    split_ifs at h with hstorage
    swap
    · simp at h
    simp only [wp_pure] at h
    rw [wp_bind, wp_udm_socket] at h
    rcases hsocket : sys.firstSocket (addr :: next) with - | ⟨sfd, rp⟩
    · simp [hsocket] at h
    simp only [hsocket, wp_ite] at h
    split_ifs at h with hzero
    · simp at h
    · exact ⟨addr, next, sfd, rp, hip, hsrv, rfl, hstorage, hsocket,
        Int.natCast_pos.1 (not_le.1 hzero),
        h.2.symm, (Outcome.session.inj h.1).symm⟩
  · rintro ⟨addr, next, sfd, rp, hip, hsrv, haddr, hstorage, hsocket, hpos, rfl, rfl⟩
    simp only [Reaches, cl, wp_bind, resolve, wp_copyText, if_pos hip, if_pos hsrv,
      wp_obtainAddresses, haddr, wp_ite, if_pos hstorage, wp_pure, wp_udm_socket, hsocket]
    rw [if_neg (not_le.2 (Int.natCast_pos.2 hpos))]
    exact ⟨trivial, trivial⟩

/-- The server starts a session exactly with a port and a file on its command line, if the text of
    the port fits, a socket can be made for an address of the list, its descriptor is 0 or it can be
    bound to the first address of the list, the file exists and is not empty, and the host can make
    the list of its addresses. The session is then one of a new context, and the socket is not bound
    if its descriptor is 0. -/
theorem srv_starts_iff (sys : System α) (bo : ByteOrder) (argv : List (List Byte))
    (fds : ℤ → Descriptor α) (p : Process) (fds' : ℤ → Descriptor α) :
    sys.Starts bo (sys.srv argv) fds p fds' ↔
      ∃ name service filename port addr next sfd rp f list, argv = [name, service, filename] ∧
        atoi service = some port ∧ sys.Fits 0 (to_string (int16 port)) ∧
        sys.getaddrinfo none (to_string (int16 port)) = some (addr, next) ∧
        sys.firstSocket (addr :: next) = some (sfd, rp) ∧
        (sfd = 0 ∧ fds' = Function.update fds 0 (.opened none) ∨
          0 < sfd ∧ sys.binds rp addr = true ∧
            fds' = Function.update fds sfd (.opened (some addr))) ∧
        sys.file filename = some f ∧ f.bytes ≠ [] ∧ sys.Lists bo list ∧
        p = (IoContext.new.set_source (reading (sys.readable filename) f)).run list := by
  rcases argv with - | ⟨name, - | ⟨service, args⟩⟩
  · simp [Starts, Reaches, srv]
  · simp [Starts, Reaches, srv]
  simp only [Starts, reaches_srv]
  constructor
  · rintro ⟨start, list, ⟨port, addr, next, sfd, rp, fds'', hport, hfits, haddr, hsocket, hbind, h⟩,
      hlist, rfl⟩
    obtain ⟨rfl, filename, f, rfl, hf, hne, rfl⟩ := (reaches_send args start fds').1 h
    exact ⟨name, service, filename, port, addr, next, sfd, rp, f, list, rfl, hport, hfits, haddr,
      hsocket, hbind, hf, hne, hlist, rfl⟩
  · rintro ⟨_, _, filename, port, addr, next, sfd, rp, f, list, heq, hport, hfits, haddr, hsocket,
      hbind, hf, hne, hlist, rfl⟩
    obtain ⟨rfl, rfl, rfl⟩ : name = _ ∧ service = _ ∧ args = [filename] := by simpa using heq
    exact ⟨_, list, ⟨port, addr, next, sfd, rp, fds', hport, hfits, haddr, hsocket, hbind,
      (reaches_send _ _ fds').2 ⟨rfl, filename, f, rfl, hf, hne, rfl⟩⟩, hlist, rfl⟩

/-- The client starts a session exactly with an address, a service and a file on its command line,
    if the texts of the address and the service fit, the first address of the list can be copied, a
    socket can be made for an address of the list, its descriptor is not 0, and the host can make
    the list of its addresses. -/
theorem cl_starts_iff (sys : System α) (bo : ByteOrder) (argv : List (List Byte))
    (fds : ℤ → Descriptor α) (p : Process) (fds' : ℤ → Descriptor α) :
    sys.Starts bo (sys.cl argv) fds p fds' ↔
      ∃ name ipaddr service filename addr next sfd rp list,
        argv = [name, ipaddr, service, filename] ∧ sys.Fits 0 ipaddr ∧ sys.Fits 1 service ∧
        sys.getaddrinfo (some ipaddr) service = some (addr, next) ∧ sys.storage addr = true ∧
        sys.firstSocket (addr :: next) = some (sfd, rp) ∧ 0 < sfd ∧
        fds' = Function.update fds sfd (.opened none) ∧ sys.Lists bo list ∧
        p = IoContext.newRx.udm_rxstart (sys.output filename) list := by
  rcases argv with - | ⟨name, - | ⟨ipaddr, - | ⟨service, - | ⟨filename, - | ⟨arg, args⟩⟩⟩⟩⟩
  · simp [Starts, Reaches, cl]
  · simp [Starts, Reaches, cl]
  · simp [Starts, Reaches, cl]
  · simp [Starts, Reaches, cl]
  swap
  · simp [Starts, Reaches, cl]
  simp only [Starts, reaches_cl]
  constructor
  · rintro ⟨start, list,
      ⟨addr, next, sfd, rp, hip, hsrv, haddr, hstorage, hsocket, hpos, hfds, rfl⟩,
      hlist, rfl⟩
    exact ⟨name, ipaddr, service, filename, addr, next, sfd, rp, list, rfl, hip, hsrv, haddr,
      hstorage, hsocket, hpos, hfds, hlist, rfl⟩
  · rintro ⟨_, _, _, _, addr, next, sfd, rp, list, heq, hip, hsrv, haddr, hstorage, hsocket, hpos,
      hfds, hlist, rfl⟩
    obtain ⟨rfl, rfl, rfl, rfl⟩ : name = _ ∧ ipaddr = _ ∧ service = _ ∧ filename = _ := by
      simpa using heq
    exact ⟨_, list, ⟨addr, next, sfd, rp, hip, hsrv, haddr, hstorage, hsocket, hpos, hfds, rfl⟩,
      hlist, rfl⟩

/-! ## Ports -/

/-- Reading the text of a natural number, which is to be an `int`. -/
theorem atoi_natCast (n : ℕ) : atoi (to_string n) = if n < 2 ^ 31 then some (n : ℤ) else none := by
  split_ifs with hn
  · exact atoi_to_string (int32_of_mem (by omega) (by omega))
  · have hint : ¬int32 n = n := fun h => by
      have := int32_lt n
      omega
    rw [atoi, readNumber_to_string, if_neg hint]

/-- Where no service is known by a negative number, the server starts a session from the number of a
    port exactly if an `int` can hold it, it is below `2 ^ 15` modulo `2 ^ 16`, and nothing stands
    in the way of the port that it is modulo `2 ^ 16`. -/
theorem port_starts_iff (sys : System α) (bo : ByteOrder)
    (hnegative : ∀ m : ℕ, 0 < m → m ≤ 2 ^ 15 → sys.getaddrinfo none (to_string (-m)) = none)
    (n : ℕ) (name filename : List Byte) (fds : ℤ → Descriptor α) :
    (∃ p fds', sys.Starts bo (sys.srv [name, to_string n, filename]) fds p fds') ↔
      n < 2 ^ 31 ∧ n % 2 ^ 16 < 2 ^ 15 ∧ sys.Fits 0 (to_string (n % 2 ^ 16 : ℕ)) ∧
        ∃ addr next sfd rp f list,
          sys.getaddrinfo none (to_string (n % 2 ^ 16 : ℕ)) = some (addr, next) ∧
          sys.firstSocket (addr :: next) = some (sfd, rp) ∧ (sfd = 0 ∨ sys.binds rp addr = true) ∧
          sys.file filename = some f ∧ f.bytes ≠ [] ∧ sys.Lists bo list := by
  constructor
  · rintro ⟨p, fds', start, list, hreaches, hlist, -⟩
    obtain ⟨port, addr, next, sfd, rp, fds'', hport, hfits, haddr, hsocket, hbind, hsend⟩ :=
      (reaches_srv _ _ _ _ _).1 hreaches
    obtain ⟨-, filename', f, hargs, hf, hne, -⟩ := (reaches_send _ _ _).1 hsend
    obtain rfl : filename = filename' := List.head_eq_of_cons_eq hargs
    rw [atoi_natCast] at hport
    split_ifs at hport with hn
    obtain rfl : (n : ℤ) = port := Option.some.inj hport
    rw [int16_natCast] at hfits haddr
    split_ifs at hfits haddr with hlow
    · exact ⟨hn, hlow, hfits, addr, next, sfd, rp, f, list, haddr, hsocket,
        hbind.imp And.left fun hbinds => hbinds.2.1, hf, hne, hlist⟩
    · -- A port of the other half is looked up as a negative number.
      rw [hnegative _ (by omega) (by omega)] at haddr
      contradiction
  · rintro ⟨hn, hlow, hfits, addr, next, sfd, rp, f, list, haddr, hsocket, hbind, hf, hne, hlist⟩
    have hport : atoi (to_string n) = some (n : ℤ) := by rw [atoi_natCast, if_pos hn]
    have hint : int16 n = (n % 2 ^ 16 : ℕ) := by rw [int16_natCast, if_pos hlow]
    rw [← hint] at hfits haddr
    have hsend (fds'' : ℤ → Descriptor α) : Reaches (sys.send [filename]) fds''
        (IoContext.new.set_source (reading (sys.readable filename) f)).run fds'' :=
      (reaches_send _ _ _).2 ⟨rfl, filename, f, rfl, hf, hne, rfl⟩
    rcases Nat.eq_zero_or_pos sfd with rfl | hpos
    · exact ⟨_, _, _, list, (reaches_srv _ _ _ _ _).2 ⟨n, addr, next, 0, rp, _, hport, hfits, haddr,
        hsocket, .inl ⟨rfl, rfl⟩, hsend _⟩, hlist, rfl⟩
    · exact ⟨_, _, _, list, (reaches_srv _ _ _ _ _).2 ⟨n, addr, next, sfd, rp, _, hport, hfits,
        haddr, hsocket, .inr ⟨hpos, hbind.resolve_left hpos.ne', rfl⟩, hsend _⟩, hlist, rfl⟩

/-- What the constructor is given on a host at `10.0.0.1`, in memory that is all zero. -/
def oneInterface : PhyInterfaces.Setting where
  ioctl := PhyInterfaces.siocgifconf [{ sa_family := 2, sin_addr := ⟨10, 0, 0, 1⟩ }]
  first := fun _ => some fun _ => { sa_family := 0, sin_addr := ⟨0, 0, 0, 0⟩ }
  second := fun _ => some fun _ => { sa_family := 0, sin_addr := ⟨0, 0, 0, 0⟩ }
  ifc := { ifc_len := 0, ifc_buf := .null }
  list := some fun _ => 0
  buffer := fun _ => 0

/-- A host that finds an address for every service that is a number, and has one file, and one
    interface. Its arrays have 24 bytes, or 40, and so on. -/
def numeric (f : File) : System Unit where
  getaddrinfo _ service := if service ≠ [] ∧ service.all isDigit then some ((), []) else none
  socket _ := some 3
  binds _ _ := true
  file _ := some f
  readable _ := true
  writable _ := true
  usable _ n := max 24 ((n + 23) / 16 * 16 - 8)
  storage _ := true
  given := oneInterface

/-- What the host finds. -/
theorem getaddrinfo_numeric (f : File) (host : Option (List Byte)) (service : List Byte) :
    (numeric f).getaddrinfo host service =
      if service ≠ [] ∧ service.all isDigit then some ((), []) else none := rfl

/-- The host has the list of its one address, whatever was in memory. -/
theorem lists_numeric (f : File) : (numeric f).Lists .little [SessionProcessor.private10] := by
  have hlist : [SessionProcessor.private10] = oneInterface.listOf .little (fun _ => 0)
      [{ sa_family := 2, sin_addr := ⟨10, 0, 0, 1⟩ }] := by decide +kernel
  exact ⟨1, (PhyInterfaces.constructs_iff (PhyInterfaces.answers_siocgifconf _) (by decide) _ _).2
    ⟨nofun, .inr fun _ _ _ => rfl, fun _ => 0, rfl, rfl, hlist⟩⟩

/-- For the port 69640, the server starts at the port 4104. -/
theorem starts_69640 : ∃ p fds', (numeric Session.oneByte).Starts .little
    ((numeric Session.oneByte).srv [[], to_string (69640 : ℕ), []]) (fun _ => .closed) p fds' := by
  have hnegative (m : ℕ) (hm : 0 < m) (_ : m ≤ 2 ^ 15) :
      (numeric Session.oneByte).getaddrinfo none (to_string (-m)) = none := by
    have hminus : to_string (-m) = 45 :: decimalText m := by
      rw [to_string, if_pos (by omega), Int.natAbs_neg, Int.natAbs_natCast]
    have hdigit : isDigit 45 = false := by decide
    rw [hminus, getaddrinfo_numeric, List.all_cons, hdigit, if_neg (by simp)]
  have haddr : (numeric Session.oneByte).getaddrinfo none (to_string (4104 : ℕ)) =
      some ((), []) := by
    rw [getaddrinfo_numeric, if_pos (by decide +kernel)]
  exact (port_starts_iff (numeric Session.oneByte) .little hnegative 69640 [] [] fun _ => .closed).2
    ⟨by decide, by decide, by decide +kernel, (), [], 3, (), _, _, haddr, rfl, .inr rfl, rfl,
      by decide, lists_numeric _⟩

end System

end Udm
