import Udm.Presentation.Sink
import Udm.Session.Window

/-!
# The steps of the receiver

What exactly a step of the receiver leads to in the handshake, and what the writes of its
window leave in the sink (`follows_sentOk`).
-/

namespace Udm

variable {bo : ByteOrder} {env : Env} {p : Process} {d : List Byte}

namespace Session

/-! ## The handshake -/

section Exec

variable (hdir : p.session.dir = .RX)
include hdir

theorem exec_sendHello (hnext : p.session.next = .open) (haddr : ¬p.interfaces.NoAddress) :
    Conf.exec (step bo) env p = { state := sentHello bo env p.clear } := by
  refine Conf.exec_of_wp (C := fun c => c = _) ?_
  have haddr' : ¬p.clear.interfaces.NoAddress := haddr
  rw [wp_step, hnext, hdir]
  show wp (openState bo env .RX) _ _ _
  rw [wp_openState_rx, if_neg haddr']

theorem exec_receiveHi (hst : Steady p) (hnext : p.session.next = .setup)
    (hd : env.datagram = some d) :
    Conf.exec (step bo) env p = { state := setUp bo env d p.clear } := by
  refine Conf.exec_of_wp (C := fun c => c = _) ?_
  have hb : p.clear.rxFactory.buffer = [] := hst.queue (by rw [holdsData, hdir, hnext])
  rw [wp_step, hnext, hdir]
  exact (wp_setupState_rx bo env hd hb).2 rfl

theorem exec_sendAck (hnext : p.session.next = .connected) (haddr : ¬p.interfaces.NoAddress) :
    Conf.exec (step bo) env p = { state := sentAck bo env p.clear } := by
  refine Conf.exec_of_wp (C := fun c => c = _) ?_
  have haddr' : ¬p.clear.interfaces.NoAddress := haddr
  rw [wp_step, hnext, hdir]
  show wp (connectedState bo env .RX) _ _ _
  rw [wp_connectedState_rx, if_neg haddr']

/-- Without an address, the handshake is not acknowledged. -/
theorem exec_noAck (hnext : p.session.next = .connected) (haddr : p.interfaces.NoAddress) :
    Conf.exec (step bo) env p =
      { state := ((newId p.clear).prepare env).select, error := some .fault } := by
  refine Conf.exec_of_wp (C := fun c => c = _) ?_
  have haddr' : p.clear.interfaces.NoAddress := haddr
  rw [wp_step, hnext, hdir]
  show wp (connectedState bo env .RX) _ _ _
  rw [wp_connectedState_rx, if_pos haddr']

end Exec

/-! ## The transfer -/

/-- What the acknowledgement of a window leaves in the sink. -/
theorem follows_sentOk (hmode : p.rxFactory.sourceData.fmode = .OUT) {content : List Byte}
    (h : p.rxFactory.sourceData.fs.Follows content)
    (hpayld : ∀ b ∈ window p, b.data.header.isPayld = true) :
    (sentOk bo env p).rxFactory.sourceData.fs.Follows
      (content ++ (window p).flatMap MemBuff.payload) := by
  have hfilter : (window p).filter (fun b => b.data.header.isPayld) = window p :=
    List.filter_eq_self.2 hpayld
  have := @PresentationProcessor.follows_writes env p content hmode (window p) h
  rw [hfilter] at this
  exact this

end Session

end Udm
