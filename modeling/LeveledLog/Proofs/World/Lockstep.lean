import LeveledLog.Proofs.World.Shape
import Mathlib.Tactic.SplitIfs

/-!
Renderings, sockets and files of two programs side by side. They do the same if they look at the
same, and what came of the sends, and what files hold, is not looked at when a logger is made.
-/

namespace LeveledLog

namespace Render

section

variable {α β : Type} {R : α → α → Prop} {S : β → β → Prop}

def Both (R : α → α → Prop) : Except Fault α → Except Fault α → Prop
  | .ok a, .ok b => R a b
  | .error f, .error g => f = g
  | _, _ => False

theorem Both.cases {p q : Except Fault α} (h : Both R p q) :
    (∃ f, p = .error f ∧ q = .error f) ∨ ∃ a b, p = .ok a ∧ q = .ok b ∧ R a b := by
  cases p with
  | error f =>
    cases q with
    | error g => exact .inl ⟨f, rfl, congrArg Except.error h.symm⟩
    | ok b => exact h.elim
  | ok a =>
    cases q with
    | error g => exact h.elim
    | ok b => exact .inr ⟨a, b, rfl, rfl, h⟩

/-- Two renderings look at the same, and end alike. -/
def Like (R : α → α → Prop) (r s : Render α) : Prop :=
  ∀ k, (r.run.run k).2 = (s.run.run k).2 ∧ Both R (r.run.run k).1 (s.run.run k).1

theorem Like.pure {a b : α} (h : R a b) : Like R (pure a) (pure b) := fun _ => ⟨rfl, h⟩

theorem Like.refl (r : Render α) : Like Eq r r := by
  intro k
  refine ⟨rfl, ?_⟩
  cases (r.run.run k).1 <;> rfl

theorem bind_run (r : Render α) (f : α → Render β) (k : Nat) :
    (r >>= f).run.run k =
      match r.run.run k with
      | (.ok a, n) => (f a).run.run n
      | (.error e, n) => (.error e, n) := by
  change ExceptT.run (r >>= f) k = _
  simp only [Bind.bind, ExceptT.bind, ExceptT.mk, ExceptT.run, StateT.bind, StateT.run]
  rcases r k with ⟨_ | a, n⟩ <;> rfl

theorem Like.bind {r s : Render α} {f g : α → Render β} (h : Like R r s)
    (k : ∀ a b, R a b → Like S (f a) (g b)) : Like S (r >>= f) (s >>= g) := by
  intro n
  obtain ⟨hn, hboth⟩ := h n
  rw [bind_run, bind_run]
  rcases hr : r.run.run n with ⟨_ | a, i⟩ <;> rcases hs : s.run.run n with ⟨_ | b, j⟩ <;>
    rw [hr, hs] at hn hboth
  · exact ⟨hn, hboth⟩
  · exact hboth.elim
  · exact hboth.elim
  · obtain rfl : i = j := hn
    exact k a b hboth i

end

end Render

/-- Two networks with the same outcome, alike but for what came of the sends. -/
def Network.Alike {ε : Type} (p q : Network × ε) : Prop := p.1.quiet = q.1.quiet ∧ p.2 = q.2

section

open Render

variable {n n' : Network}

theorem Network.attempt_alike (h : n.quiet = n'.quiet) (kind : SocketKind) (address : Value) :
    Like Network.Alike (n.attempt kind address) (n'.attempt kind address) := by
  obtain ⟨supported, listeners, failures, sockets, events, unopenable, strict⟩ := n
  obtain ⟨supported', listeners', failures', sockets', events', unopenable', strict'⟩ := n'
  obtain ⟨rfl, rfl, -, rfl, -, rfl, rfl⟩ := Network.mk.inj h
  let opened (f : Nat) (e : List NetworkEvent) : Network :=
    Network.added ⟨supported, listeners, f, sockets, e, unopenable, strict⟩ ⟨kind, true⟩
  obtain ⟨result, hanswer⟩ : ∃ result, ∀ f e, (opened f e).answerTo kind address = result :=
    ⟨(opened 0 []).answerTo kind address, fun _ _ => rfl⟩
  unfold Network.attempt
  dsimp only
  split
  · exact Like.pure ⟨rfl, rfl⟩
  · refine (Like.refl _).bind fun text _ htext => ?_
    subst htext
    cases text with
    | error f =>
      dsimp only
      split <;> exact Like.pure ⟨rfl, rfl⟩
    | ok text =>
      dsimp only
      rw [hanswer, hanswer]
      cases result with
      | ok u => exact Like.pure ⟨rfl, rfl⟩
      | error f =>
        dsimp only
        split <;> exact Like.pure ⟨rfl, rfl⟩

theorem Network.connect_alike (h : n.quiet = n'.quiet) (address : Value) :
    Like Network.Alike (n.connect address) (n'.connect address) := by
  refine (Network.attempt_alike h .datagram address).bind fun p q hpq => ?_
  obtain ⟨hquiet, hresult⟩ := hpq
  dsimp only
  rw [← hresult]
  cases p.2 with
  | ok id => exact Like.pure ⟨hquiet, rfl⟩
  | error f =>
    dsimp only
    split
    · exact Network.attempt_alike hquiet .stream address
    · exact Like.pure ⟨hquiet, rfl⟩

theorem SyslogWriter.connect_alike (h : n.quiet = n'.quiet) (program : List String) (process : Nat)
    (address ident : Value) :
    Like Network.Alike (connect n program process address ident)
      (connect n' program process address ident) := by
  have hfail : ∀ {p q : Network} (cause : Option SystemError), p.quiet = q.quiet →
      Like (@Network.Alike (Except Fault SyslogWriter))
        (do let f ← tryCatch (unreachable address cause) pure; pure (p, .error f))
        (do let f ← tryCatch (unreachable address cause) pure; pure (q, .error f)) := by
    intro p q cause hpq
    refine (Like.refl _).bind fun f _ hf => ?_
    subst hf
    exact Like.pure ⟨hpq, rfl⟩
  have hsupported : n'.supported = n.supported := (congrArg Network.supported h).symm
  unfold connect
  dsimp only
  rw [hsupported]
  by_cases hs : (!n.supported) = true
  · rw [if_pos hs, if_pos hs]
    exact hfail none h
  · rw [if_neg hs, if_neg hs]
    refine (Network.connect_alike h address).bind fun p q hpq => ?_
    obtain ⟨hquiet, hresult⟩ := hpq
    rw [← hresult]
    cases p.2 with
    | ok socket => exact Like.pure ⟨hquiet, rfl⟩
    | error f =>
      dsimp only
      split
      · exact hfail _ hquiet
      · exact Like.pure ⟨hquiet, rfl⟩

end

namespace Files

structure Alike (fs fs' : Files) : Prop where
  directories : fs.directories = fs'.directories
  places : ∀ p, (fs.file? p).isSome = (fs'.file? p).isSome

variable {fs fs' : Files}

theorem Alike.directory (h : Alike fs fs') (p : Place) :
    fs.hasDirectory p = fs'.hasDirectory p := by
  rw [hasDirectory, hasDirectory, h.directories]

theorem Alike.node (h : Alike fs fs') (p : Place) :
    (fs.node p = .directory ∧ fs'.node p = .directory) ∨
      (∃ f f', fs.node p = .file f ∧ fs'.node p = .file f') ∨
        (fs.node p = .nothing ∧ fs'.node p = .nothing) := by
  have hplaces := h.places p
  unfold Files.node
  rw [← h.directory]
  split_ifs
  · exact .inl ⟨rfl, rfl⟩
  · cases hf : fs.file? p <;> cases hf' : fs'.file? p <;> rw [hf, hf'] at hplaces
    · exact .inr (.inr ⟨rfl, rfl⟩)
    · cases hplaces
    · cases hplaces
    · exact .inr (.inl ⟨_, _, rfl, rfl⟩)

theorem Alike.enter (h : Alike fs fs') (here : Place) (ns : List Name) :
    fs.enter here ns = fs'.enter here ns := by
  induction ns generalizing here with
  | nil => rfl
  | cons n rest ih =>
    simp only [Files.enter, ih]
    rcases h.node (here ++ [n]) with ⟨hn, hn'⟩ | ⟨f, f', hn, hn'⟩ | ⟨hn, hn'⟩ <;>
      rw [hn, hn']

theorem Alike.resolve (h : Alike fs fs') (path : List UInt8) :
    fs.resolve path = fs'.resolve path := by
  simp only [Files.resolve, h.enter]

theorem Alike.openForWriting (h : Alike fs fs') (path : List UInt8) :
    (∃ e, fs.openForWriting path = .error e ∧ fs'.openForWriting path = .error e) ∨
      ∃ p f f', fs.openForWriting path = .ok (fs.put p f, ⟨p, 0⟩) ∧
        fs'.openForWriting path = .ok (fs'.put p f', ⟨p, 0⟩) := by
  unfold Files.openForWriting
  rw [← h.resolve]
  split
  · exact .inl ⟨_, rfl, rfl⟩
  · exact .inl ⟨_, rfl, rfl⟩
  · rename_i p slashed _
    split
    · exact .inl ⟨_, rfl, rfl⟩
    · split
      · exact .inl ⟨_, rfl, rfl⟩
      · rcases h.node p with ⟨hn, hn'⟩ | ⟨f, f', hn, hn'⟩ | ⟨hn, hn'⟩ <;> rw [hn, hn']
        · exact .inl ⟨_, rfl, rfl⟩
        · exact .inr ⟨p, _, _, rfl, rfl⟩
        · exact .inr ⟨p, _, _, rfl, rfl⟩

theorem Alike.put (h : Alike fs fs') (p : Place) (f f' : File) :
    Alike (fs.put p f) (fs'.put p f') := by
  refine ⟨?_, fun q => ?_⟩
  · rw [put_directories, put_directories, h.directories]
  · rw [file?_put, file?_put]
    split
    · rfl
    · exact h.places q

end Files

end LeveledLog
