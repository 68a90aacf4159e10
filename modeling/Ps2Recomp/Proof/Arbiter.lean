import Ps2Recomp.Spec.Gif

/-!
# The order of the arbiter

The comparison of the queue is a strict weak ordering, and draining therefore in order, as long as the
queue does not hold DIRECTHL, an image of path 3 and a plain packet of path 2 or 3 together
(`drain_order`): the plain packets tie with the two that the rule tells apart.
-/

namespace Ps2Recomp.Gif

open Stable

/-- What the rules look at in a packet. -/
inductive Kind
  | path1 | path2 | directHl | path3 | image
  deriving DecidableEq, Repr

namespace Kind

def priority : Kind → ℕ
  | .path1 => 1
  | .path2 | .directHl => 2
  | .path3 | .image => 3

/-- **The rules**: path 1, then path 2, then path 3, but an image before DIRECTHL. -/
def before : Kind → Kind → Bool
  | .image, .directHl => true
  | .directHl, .image => false
  | a, b => a.priority < b.priority

end Kind

variable {q : List GifArbiterPacket}

def GifArbiterPacket.kind (p : GifArbiterPacket) : Kind :=
  match p.pathId with
  | .path1 => .path1
  | .path2 => if p.path2DirectHl then .directHl else .path2
  | .path3 => if p.path3Image then .image else .path3

theorem kind_fields (p : GifArbiterPacket) : p.path2DirectHl = decide (p.kind = .directHl) ∧
    p.path3Image = decide (p.kind = .image) ∧ pathPriority p.pathId = p.kind.priority := by
  obtain ⟨pathId, hl, image, -, hhl, himage, -⟩ := p
  rw [GifArbiterPacket.kind]
  cases pathId with
  | path1 =>
    obtain rfl : hl = false := Bool.eq_false_iff.2 fun h => by cases hhl h
    obtain rfl : image = false := Bool.eq_false_iff.2 fun h => by cases himage h
    exact ⟨rfl, rfl, rfl⟩
  | path2 =>
    obtain rfl : image = false := Bool.eq_false_iff.2 fun h => by cases himage h
    cases hl with
    | false => exact ⟨rfl, rfl, rfl⟩
    | true => exact ⟨rfl, rfl, rfl⟩
  | path3 =>
    obtain rfl : hl = false := Bool.eq_false_iff.2 fun h => by cases hhl h
    cases image with
    | false => exact ⟨rfl, rfl, rfl⟩
    | true => exact ⟨rfl, rfl, rfl⟩

theorem comesBefore_eq (a b : GifArbiterPacket) : comesBefore a b = a.kind.before b.kind := by
  obtain ⟨hla, ima, pra⟩ := kind_fields a
  obtain ⟨hlb, imb, prb⟩ := kind_fields b
  rw [comesBefore, hla, ima, pra, hlb, imb, prb]
  cases a.kind <;> cases b.kind <;> decide

/-- Three kinds that the rules do not order. -/
def Kind.Clash (x y z : Kind) : Prop :=
  (x = .directHl ∨ y = .directHl ∨ z = .directHl) ∧ (x = .image ∨ y = .image ∨ z = .image) ∧
    ((x = .path2 ∨ x = .path3) ∨ (y = .path2 ∨ y = .path3) ∨ (z = .path2 ∨ z = .path3))

instance (x y z : Kind) : Decidable (Kind.Clash x y z) := inferInstanceAs (Decidable (_ ∧ _ ∧ _))

/-- Of three kinds that do not clash, the rules make a strict weak ordering. -/
theorem Kind.ordered : ∀ x y z : Kind, ¬Kind.Clash x y z → x.before x = false ∧
    (x.before y = true → y.before z = true → x.before z = true) ∧
      (Ties Kind.before x y → Ties Kind.before y z → Ties Kind.before x z) := by
  intro x y z
  cases x <;> cases y <;> cases z <;> decide

/-- **The queue is mixed**: DIRECTHL, an image, and a plain packet of path 2 or 3. -/
def Mixed (q : List GifArbiterPacket) : Prop :=
  (∃ p ∈ q, p.kind = .directHl) ∧ (∃ p ∈ q, p.kind = .image) ∧ ∃ p ∈ q, p.kind = .path2 ∨ p.kind = .path3

theorem ties_eq (a b : GifArbiterPacket) : Ties comesBefore a b ↔ Ties Kind.before a.kind b.kind := by
  rw [Ties, Ties, comesBefore_eq, comesBefore_eq]

/-- A queue that is not mixed has no three packets that clash. -/
theorem no_clash (h : ¬Mixed q) {a b c : GifArbiterPacket} (ha : a ∈ q) (hb : b ∈ q) (hc : c ∈ q) :
    ¬Kind.Clash a.kind b.kind c.kind := by
  rintro ⟨hhl, himage, hplain⟩
  refine h ⟨?_, ?_, ?_⟩
  · rcases hhl with h | h | h
    · exact ⟨a, ha, h⟩
    · exact ⟨b, hb, h⟩
    · exact ⟨c, hc, h⟩
  · rcases himage with h | h | h
    · exact ⟨a, ha, h⟩
    · exact ⟨b, hb, h⟩
    · exact ⟨c, hc, h⟩
  · rcases hplain with h | h | h
    · exact ⟨a, ha, h⟩
    · exact ⟨b, hb, h⟩
    · exact ⟨c, hc, h⟩

theorem weakOrder_of_not_mixed (h : ¬Mixed q) : WeakOrder comesBefore q := by
  constructor
  case irrefl =>
    intro a ha
    rw [comesBefore_eq]
    exact (Kind.ordered _ _ _ (no_clash h ha ha ha)).1
  case trans =>
    intro a ha b hb c hc hab hbc
    rw [comesBefore_eq] at hab hbc ⊢
    exact (Kind.ordered _ _ _ (no_clash h ha hb hc)).2.1 hab hbc
  case ties_trans =>
    intro a ha b hb c hc hab hbc
    rw [ties_eq] at hab hbc ⊢
    exact (Kind.ordered _ _ _ (no_clash h ha hb hc)).2.2 hab hbc

/-- A plain packet of path 2 comes before the image, and one of path 3 behind DIRECTHL. -/
theorem not_weakOrder_of_mixed (h : Mixed q) : ¬WeakOrder comesBefore q := by
  obtain ⟨⟨hl, hhl, hkhl⟩, ⟨im, him, hkim⟩, ⟨p, hp, hkp⟩⟩ := h
  intro hw
  have hfirst : comesBefore im hl = true := by
    rw [comesBefore_eq, hkim, hkhl]
    rfl
  rcases hkp with hk | hk
  · have hbefore : comesBefore p im = true := by
      rw [comesBefore_eq, hk, hkim]
      rfl
    have := hw.trans p hp im him hl hhl hbefore hfirst
    rw [comesBefore_eq, hk, hkhl] at this
    cases this
  · have hbehind : comesBefore hl p = true := by
      rw [comesBefore_eq, hk, hkhl]
      rfl
    have := hw.trans im him hl hhl p hp hfirst hbehind
    rw [comesBefore_eq, hk, hkim] at this
    cases this

/-- **A queue is drained in order**: the comparison is a strict weak ordering on it, and the packets
are processed as the rules order them, each once, those that tie as they were submitted. -/
def DrainsInOrder (stableSort : (GifArbiterPacket → GifArbiterPacket → Bool) → List GifArbiterPacket →
    List GifArbiterPacket) (q : List GifArbiterPacket) : Prop :=
  WeakOrder comesBefore q ∧ ∀ (S : Type) (processFn : List Byte → S → S) (s : S), ∃ out,
    Sorts (fun a b => a.kind.before b.kind) q out ∧
      GifArbiter.drain stableSort processFn ⟨q, s⟩ = ⟨[], out.foldl (fun s pkt => processFn pkt.data s) s⟩

/-- **Which queues are drained in order.** -/
theorem drain_order (stableSort : (GifArbiterPacket → GifArbiterPacket → Bool) → List GifArbiterPacket →
    List GifArbiterPacket) (hsort : ∀ lt l, WeakOrder lt l → Sorts lt l (stableSort lt l))
    (q : List GifArbiterPacket) : DrainsInOrder stableSort q ↔ ¬Mixed q := by
  constructor
  · exact fun h hmixed => not_weakOrder_of_mixed hmixed h.1
  · intro h
    have hw := weakOrder_of_not_mixed h
    have hrules : (fun a b : GifArbiterPacket => a.kind.before b.kind) = comesBefore := by
      funext a b
      exact (comesBefore_eq a b).symm
    refine ⟨hw, fun S processFn s => ⟨stableSort comesBefore q, ?_, rfl⟩⟩
    rw [hrules]
    exact hsort comesBefore q hw

/-- A packet of zeros, but for the tag of an image. -/
def blank : Kind → GifArbiterPacket
  | .path1 => ⟨.path1, false, false, List.replicate 16 0, nofun, nofun, le_rfl⟩
  | .path2 => ⟨.path2, false, false, List.replicate 16 0, nofun, nofun, le_rfl⟩
  | .directHl => ⟨.path2, true, false, List.replicate 16 0, fun _ => rfl, nofun, le_rfl⟩
  | .path3 => ⟨.path3, false, false, List.replicate 16 0, nofun, nofun, le_rfl⟩
  | .image => ⟨.path3, false, true, List.replicate 7 0 ++ 8 :: List.replicate 8 0, nofun, fun _ => rfl, le_rfl⟩

theorem drain_order_paths : DrainsInOrder Stable.sort [blank .path3, blank .path1] ↔
    ¬Mixed [blank .path3, blank .path1] :=
  drain_order Stable.sort (fun _ _ h => sorts_sort h) _

/-- **Three packets without an order**: plain path 2 before the image, the image before DIRECTHL, and
DIRECTHL level with plain path 2. -/
theorem three_packets_unordered : ¬∀ q, DrainsInOrder Stable.sort q := by
  intro h
  have hmixed : Mixed [blank .path2, blank .directHl, blank .image] :=
    ⟨⟨blank .directHl, by simp, rfl⟩, ⟨blank .image, by simp, rfl⟩, ⟨blank .path2, by simp, .inl rfl⟩⟩
  exact not_weakOrder_of_mixed hmixed (h _).1

end Ps2Recomp.Gif
