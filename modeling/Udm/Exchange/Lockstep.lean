import Udm.Exchange
import Udm.Library.Lockstep

/-!
# Exchanges in lockstep

Sites whose processes are related as far as the network sees them (`SeenAlike`), and stay so
when both take a step with related datagrams, send related datagrams (`alike_machine`): so two
exchanges of such sites have related datagrams under way, at the same places of their channels.
What is related is for the user to say: the same datagrams, or those that differ in bytes that
neither side sees.
-/

namespace Udm

/-- Related processes wait and return at the same moment, and have sent datagrams related
    by `C`. -/
structure SeenAlike (C : List Byte → List Byte → Prop) (R : Process → Process → Prop) : Prop where
  /-- Both have returned, or none. -/
  returned : ∀ {p q}, R p q → p.returned = q.returned
  /-- Both wait for a datagram, or none. -/
  awaits : ∀ {p q}, R p q → p.awaits = q.awaits
  /-- They have sent as many datagrams. -/
  out : ∀ {p q}, R p q → List.Forall₂ C p.out q.out

namespace Site

/-- Sites of a session in the direction `dir`, with related processes. -/
structure Alike (dir : StateDirection) (R : Process → Process → Prop) (t t' : Site) : Prop where
  /-- The processes are related, and have stopped alike. -/
  conf : Conf.Same R t.conf t'.conf
  /-- The session of the first one is between two steps. -/
  steady : t.Steady dir

variable {bo : ByteOrder} {dir : StateDirection} {C : List Byte → List Byte → Prop}
  {K : Env → Env → Prop} {R : Process → Process → Prop} {t t' : Site}

theorem alike_start {p q : Process} (hst : Session.Steady p) (hdir : p.session.dir = dir)
    (h : R p q) : Alike dir R { conf := { state := p } } { conf := { state := q } } :=
  ⟨⟨rfl, h⟩, fun _ => ⟨hst, hdir⟩⟩

theorem Alike.alive_iff (hR : SeenAlike C R) (h : Alike dir R t t') :
    t.conf.Alive Process.returned ↔ t'.conf.Alive Process.returned :=
  h.conf.alive_iff fun _ _ h => hR.returned h

/-- Related sites send related datagrams, if a step has the same end on related processes that
    get related datagrams. -/
theorem alike_machine (hR : SeenAlike C R)
    (hstep : ∀ {p q env env' d d'}, Session.Steady p → R p q → K env env' → Option.Rel C d d' →
      SameEnd R Eq (Session.step bo { env with datagram := d } p)
        (Session.step bo { env' with datagram := d' } q)) :
    (machine bo).Alike (machine bo) C K (Alike dir R) where
  awaits := by
    intro t t' h
    show t.awaits = t'.awaits
    simp only [Site.awaits, h.alive_iff hR, hR.awaits h.conf.2]
  step := by
    intro t t' env env' d d' h hK hd
    show Alike dir R (t.step bo env d).1 (t'.step bo env' d').1 ∧
      List.Forall₂ C (t.step bo env d).2 (t'.step bo env' d').2
    have hsteady : (t.step bo env d).1.Steady dir := h.steady.step env d
    by_cases hc : t.conf.Alive Process.returned
    · have hsame := Conf.same_exec (hstep (h.steady hc.1).1 h.conf.2 hK hd)
      rw [step_of_alive hc] at hsteady ⊢
      rw [step_of_alive ((h.alive_iff hR).1 hc)]
      exact ⟨⟨hsame, hsteady⟩, hR.out hsame.2⟩
    · rw [step_of_not_alive hc, step_of_not_alive (mt (h.alive_iff hR).2 hc)]
      exact ⟨h, .nil⟩

end Site

end Udm
