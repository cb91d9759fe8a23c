import CodeAtlas.Session
import CodeAtlas.Proofs.Files.Writing

/-!
# What actions come out with

What a reading action comes out with depends on the tree alone (`Action.Yields`, `Work.Yields`). The
lemmas here take a sequence of actions apart, so that no proof about one looks into a session.
-/

namespace CodeAtlas

open List

variable {e : Failure} {p : Path} {f : Files.Fault} {bytes : List UInt8} {time : Int}
  {question : Files.Tree → Path → Except Files.Fault Bool} {a : Action α} {r : Except Failure α}
  {s s' : Session}

variable {α β σ : Type} {t : Files.Tree}

section

variable {ε : Type} {d d' : σ} {p : ExceptT ε (StateM σ) α}

/-- What comes after an action starts where that ended. -/
lemma bind_ok {x : α} (h : p d = (.ok x, d')) (f : α → ExceptT ε (StateM σ) β) :
    (p >>= f) d = f x d' := by
  simp only [Bind.bind, ExceptT.bind, ExceptT.mk, StateT.bind, h, ExceptT.bindCont]

lemma bind_error {e : ε} (h : p d = (.error e, d')) (f : α → ExceptT ε (StateM σ) β) :
    (p >>= f) d = (.error e, d') := by
  simp only [Bind.bind, ExceptT.bind, ExceptT.mk, StateT.bind, h, ExceptT.bindCont]
  rfl

end

namespace Action

/-- On a tree, an action comes out with `r` and leaves the tree as it is. -/
def Yields (a : Action α) (t : Files.Tree) (r : Except Failure α) : Prop :=
  ∀ s : Session, s.tree = t → ∃ s' : Session, a s = (r, s') ∧ s'.tree = t

lemma yields_pure (x : α) : Yields (pure x) t (.ok x) := fun s hs => ⟨s, rfl, hs⟩

section

variable {a : Action α}

lemma exists_of_bind_ok {f : α → Action β} {s'' : Session} {y : β}
    (h : (a >>= f) s = (.ok y, s'')) : ∃ x s', a s = (.ok x, s') ∧ f x s' = (.ok y, s'') := by
  rcases ha : a s with ⟨e | x, s'⟩
  · simp only [Bind.bind, ExceptT.bind, ExceptT.mk, StateT.bind, ha, ExceptT.bindCont] at h
    cases h
  · exact ⟨x, s', rfl, by rw [← h, bind_ok ha]⟩

lemma Yields.of_run {r r' : Except Failure α} (h : Yields a s.tree r)
    (hrun : a s = (r', s')) : r' = r ∧ s'.tree = s.tree := by
  obtain ⟨s1, hs1, htree⟩ := h s rfl
  obtain ⟨rfl, rfl⟩ := Prod.mk.inj (hrun.symm.trans hs1)
  exact ⟨rfl, htree⟩

lemma Yields.bind {f : α → Action β} {x : α} {r : Except Failure β}
    (ha : Yields a t (.ok x)) (hf : Yields (f x) t r) : Yields (a >>= f) t r := by
  intro s hs
  obtain ⟨s1, hs1, ht1⟩ := ha s hs
  obtain ⟨s2, hs2, ht2⟩ := hf s1 ht1
  exact ⟨s2, by rw [bind_ok hs1, hs2], ht2⟩

lemma Yields.bind_error (ha : Yields a t (.error e)) (f : α → Action β) :
    Yields (a >>= f) t (.error e) := by
  intro s hs
  obtain ⟨s1, hs1, ht1⟩ := ha s hs
  exact ⟨s1, CodeAtlas.bind_error hs1 f, ht1⟩

end

lemma yields_log (level : Level) (text : String) (cause : Option Failure) :
    Yields (log level text cause) t (.ok ()) := fun _ hs => ⟨_, rfl, hs⟩

lemma yields_print (line : String) : Yields (print line) t (.ok ()) := fun _ hs => ⟨_, rfl, hs⟩

lemma yields_tree : Yields tree t (.ok t) := fun s hs => ⟨s, by rw [← hs]; rfl, hs⟩

lemma yields_ofFiles_ok (x : α) : Yields (ofFiles (.ok x)) t (.ok x) := yields_pure x

lemma yields_ofFiles_error :
    Yields (ofFiles (.error (f, p)) : Action α) t (.error (.file f p.text)) :=
  fun s hs => ⟨s, rfl, hs⟩

lemma yields_access {x : α} {r : Except AccessFault α} (h : r = .ok x) :
    Yields (access r) t (.ok x) := by
  subst h
  exact yields_pure x

lemma ok_of_ofEncoding {x : α} {r : Except Text.EncodeFault α} {s s' : Session}
    (h : ofEncoding r s = (.ok x, s')) : r = .ok x := by
  cases r with
  | error f => cases h
  | ok y =>
    cases h
    rfl

lemma yields_decode {cs : List Char} (h : Text.utf8 bytes = .ok cs) :
    Yields (decode bytes) t (.ok cs) := by
  unfold decode
  rw [h]
  exact yields_pure cs

lemma yields_decode_error {e : Text.Utf8Fault} (h : Text.utf8 bytes = .error e) :
    Yields (decode bytes) t (.error (.decoding e)) := by
  unfold decode
  rw [h]
  exact fun s hs => ⟨s, rfl, hs⟩

lemma Yields.attempt {a : Action α} {r : Except Failure α} (h : Yields a t r) :
    Yields (Action.attempt a) t (.ok r) := by
  intro s hs
  obtain ⟨s', hs', ht⟩ := h s hs
  exact ⟨s', by simp only [Action.attempt, hs'], ht⟩

lemma yields_readBytes (h : t.read p = .ok (bytes, time)) : Yields (readBytes p) t (.ok bytes) := by
  refine yields_tree.bind (Yields.bind (x := (bytes, time)) ?_ (yields_pure bytes))
  rw [h]
  exact yields_ofFiles_ok _

lemma yields_fileSize (h : t.read p = .ok (bytes, time)) :
    Yields (fileSize p) t (.ok bytes.length) := (yields_readBytes h).bind (yields_pure _)

lemma yields_readBytes_error {q : Path} (h : t.read p = .error (f, q)) :
    Yields (readBytes p) t (.error (.file f q.text)) := by
  refine yields_tree.bind (Yields.bind_error ?_ _)
  rw [h]
  exact yields_ofFiles_error

lemma yields_ask {answer : Bool} (h : question t p = .ok answer) :
    Yields (ask question p) t (.ok answer) := by
  refine yields_tree.bind ?_
  rw [h]
  exact yields_ofFiles_ok answer

lemma yields_ask_error (h : question t p = .error f) :
    Yields (ask question p) t (.error (.file f p.text)) := by
  refine yields_tree.bind ?_
  rw [h]
  exact yields_ofFiles_error

lemma ask_of_ok {answer : Bool} (h : question s.tree p = .ok answer) :
    ask question p s = (.ok answer, s) := by
  have htree : tree s = (.ok s.tree, s) := rfl
  unfold ask
  rw [bind_ok htree, h]
  rfl

lemma exists_yields_ask : ∃ r, Yields (ask question p) t r := by
  rcases h : question t p with f | answer
  · exact ⟨_, yields_ask_error h⟩
  · exact ⟨_, yields_ask h⟩

lemma exists_yields_bind {a : Action α} {f : α → Action β} (ha : ∃ r, Yields a t r)
    (hf : ∀ x, ∃ r, Yields (f x) t r) : ∃ r, Yields (a >>= f) t r := by
  obtain ⟨e | x, hr⟩ := ha
  · exact ⟨_, hr.bind_error _⟩
  · obtain ⟨r, hx⟩ := hf x
    exact ⟨r, hr.bind hx⟩

lemma yields_isThere_of_hasEntry {there : Bool} (h : t.hasEntry p = .ok there) :
    Yields (isThere p) t (.ok there) := yields_ask h

lemma yields_isThere (h : t.read p = .ok (bytes, time)) :
    Yields (isThere p) t (.ok true) := yields_isThere_of_hasEntry (Files.Tree.hasEntry_of_read h)

lemma yields_isFile (h : t.read p = .ok (bytes, time)) : Yields (isFile p) t (.ok true) :=
  yields_ask (Files.Tree.hasFile_of_read h)

lemma yields_isThere_error (h : t.hasEntry p = .error f) :
    Yields (isThere p) t (.error (.file f p.text)) := yields_ask_error h

lemma Yields.exists_read (h : Yields a s.tree r) {file : List UInt8 × Int}
    (hread : s.tree.read p = .ok file) : ∃ s' :
    Session, a s = (r, s') ∧ s'.tree.read p = .ok file := by
  obtain ⟨s', hs', htree⟩ := h s rfl
  exact ⟨s', hs', by rw [htree, hread]⟩

lemma onFailure_ok {a : Action α} {x : α} (h : a s = (.ok x, s'))
    (handle : Failure → Action Unit) : onFailure a handle s = (.ok x, s') := by
  have hattempt : attempt a s = (.ok (.ok x), s') := by simp only [attempt, h]
  unfold onFailure
  rw [bind_ok hattempt]
  rfl

lemma yields_throw (e : Failure) : Yields (throw e : Action α) t (.error e) :=
  fun s hs => ⟨s, rfl, hs⟩

lemma Yields.onFailure (h : Yields a t r) (text : String) :
    Yields (Action.onFailure a (report text)) t r := by
  refine h.attempt.bind ?_
  cases r with
  | ok x => exact yields_pure x
  | error f => exact (yields_log _ _ _).bind (yields_throw f)

lemma change_eq (f : Files.Tree → Except Files.Refusal Files.Tree) (s : Session) :
    change f s = match f s.tree with
    | .ok t => (.ok (), { s with tree := t })
    | .error (f, p) => (.error (.file f p.text), s) := by
  have htree : tree s = (.ok s.tree, s) := rfl
  unfold change
  rw [bind_ok htree]
  rcases f s.tree with ⟨g, p⟩ | t <;> rfl

lemma attempt_makeDirs : attempt (makeDirs p) s =
    (.ok ((s.tree.makeDirs p).1.mapError fun r => .file r.1 r.2.text),
      { s with tree := (s.tree.makeDirs p).2 }) := by
  have htree : tree s = (.ok s.tree, s) := rfl
  unfold attempt makeDirs
  rw [bind_ok htree]
  rcases s.tree.makeDirs p with ⟨⟨f, q⟩ | _, t⟩ <;> rfl

lemma writeBytes_eq : writeBytes p bytes s = change (·.write p bytes s.now) s := rfl

lemma writeBytes_of_write (h : s.tree.write p bytes s.now = .ok t) :
    writeBytes p bytes s = (.ok (), { s with tree := t }) := by
  rw [writeBytes_eq, change_eq, h]

lemma write_of_writeBytes (h : writeBytes p bytes s = (.ok (), s')) :
    s.tree.write p bytes s.now = .ok s'.tree := by
  rw [writeBytes_eq, change_eq] at h
  rcases hwrite : s.tree.write p bytes s.now with r | t
  · rw [hwrite] at h
    cases h
  · rw [hwrite] at h
    cases h
    rfl

lemma exists_writeBytes (h : s.tree.Writable p) (bytes : List UInt8) :
    ∃ s' : Session, writeBytes p bytes s = (.ok (), s') ∧ s'.tree.read p = .ok (bytes, s.now) := by
  obtain ⟨t', hwrite, hread⟩ := Files.Tree.exists_write h bytes s.now
  exact ⟨_, writeBytes_of_write hwrite, hread⟩

lemma read_of_writeBytes (h : writeBytes p bytes s = (.ok (), s')) :
    s'.tree.read p = .ok (bytes, s.now) := by
  have hwritable := Files.Tree.writable_of_write (write_of_writeBytes h)
  obtain ⟨s1, hs1, hread⟩ := exists_writeBytes hwritable bytes
  obtain ⟨-, rfl⟩ := Prod.mk.inj (h.symm.trans hs1)
  exact hread

lemma exists_yields_writeBytes_error (h : ¬ t.Writable p) :
    ∃ e, Yields (writeBytes p bytes) t (.error e) := by
  obtain ⟨⟨f, q⟩, hrefused⟩ := Files.Tree.exists_refusal h
  refine ⟨.file f q.text, fun s hs => ⟨s, ?_, hs⟩⟩
  rw [writeBytes_eq, change_eq, hs, hrefused]

lemma yields_forIn {xs : List α} {f : α → PUnit → Action (ForInStep PUnit)}
    (h : ∀ a ∈ xs, Yields (f a ⟨⟩) t (.ok (.yield ⟨⟩))) : Yields (forIn xs ⟨⟩ f) t (.ok ⟨⟩) := by
  induction xs with
  | nil => exact yields_pure _
  | cons a xs ih =>
    rw [forIn_cons]
    exact (h a mem_cons_self).bind (ih fun b hb => h b (mem_cons_of_mem _ hb))

end Action

namespace Step

section View

variable {γ : Type} {view : σ → γ} {p : Step σ α} {f : α → Step σ β}

/-- Whatever comes of a step, it leaves what a view shows as it is. -/
def Keeps (view : σ → γ) (p : Step σ α) : Prop := ∀ d, view (p d).2 = view d

lemma keeps_pure (x : α) : Keeps view (pure x) := fun _ => rfl

lemma keeps_get : Keeps view (get : Step σ σ) := fun _ => rfl

lemma view_bind (hf : ∀ x, Keeps view (f x)) (d : σ) : view ((p >>= f) d).2 = view (p d).2 := by
  rcases h : p d with ⟨e | x, d'⟩
  · rw [bind_error h]
  · rw [bind_ok h, hf x d']

lemma Keeps.bind (hp : Keeps view p) (hf : ∀ x, Keeps view (f x)) : Keeps view (p >>= f) :=
  fun d => (view_bind hf d).trans (hp d)

/-- What comes of a step, as far as a view shows it, depends on nothing that the view leaves out. -/
def Respects (view : σ → γ) (p : Step σ α) : Prop :=
  ∀ d d', view d' = view d → (p d').1 = (p d).1 ∧ view (p d').2 = view (p d).2

lemma respects_pure (x : α) : Respects view (pure x) := fun _ _ h => ⟨rfl, h⟩

lemma Respects.bind (hp : Respects view p) (hf : ∀ x, Respects view (f x)) :
    Respects view (p >>= f) := by
  intro d d' hview
  obtain ⟨hresult, hafter⟩ := hp d d' hview
  rcases h : p d with ⟨e | x, d1⟩ <;> rcases h' :
    p d' with ⟨e' | x', d₁'⟩ <;> rw [h, h'] at hresult hafter
  · rw [bind_error h, bind_error h']
    exact ⟨by rw [Except.error.inj hresult], hafter⟩
  · cases hresult
  · cases hresult
  · rw [bind_ok h, bind_ok h', Except.ok.inj hresult]
    exact hf x d1 d₁' hafter

end View

end Step

namespace Work

/-- On a tree, a work comes out with `r`, takes what is done so far on, and leaves the tree as it
is. -/
def Yields (w : Work σ α) (t : Files.Tree) (before : σ) (r : Except Failure α) (after : σ) : Prop :=
  ∀ s : Session, s.tree = t → ∃ s' : Session, w before s = ((r, after), s') ∧ s'.tree = t

variable {d d1 d2 : σ}

lemma yields_pure (x : α) : Yields (pure x) t d (.ok x) d := fun s hs => ⟨s, rfl, hs⟩

lemma bind_ok {w : Work σ α} {x : α} (h : w d s = ((.ok x, d1), s')) (f : α → Work σ β) :
    (w >>= f) d s = f x d1 s' := by
  simp only [Bind.bind, ExceptT.bind, ExceptT.mk, StateT.bind, h, ExceptT.bindCont]

lemma bind_error {w : Work σ α} (h : w d s = ((.error e, d1), s'))
    (f : α → Work σ β) : (w >>= f) d s = ((.error e, d1), s') := by
  simp only [Bind.bind, ExceptT.bind, ExceptT.mk, StateT.bind, h, ExceptT.bindCont]
  rfl

lemma Yields.bind {w : Work σ α} {f : α → Work σ β} {x : α} {r : Except Failure β}
    (hw : Yields w t d (.ok x) d1) (hf : Yields (f x) t d1 r d2) : Yields (w >>= f) t d r d2 := by
  intro s hs
  obtain ⟨s1, hs1, ht1⟩ := hw s hs
  obtain ⟨s2, hs2, ht2⟩ := hf s1 ht1
  exact ⟨s2, by rw [bind_ok hs1, hs2], ht2⟩

lemma Yields.bind_error {w : Work σ α} (hw : Yields w t d (.error e) d1)
    (f : α → Work σ β) : Yields (w >>= f) t d (.error e) d1 := by
  intro s hs
  obtain ⟨s1, hs1, ht1⟩ := hw s hs
  exact ⟨s1, Work.bind_error hs1 f, ht1⟩

lemma yields_lift (h : Action.Yields a t r) : Yields (monadLift a) t d r d := by
  intro s hs
  obtain ⟨s', hs', ht⟩ := h s hs
  exact ⟨s', by simp only [monadLift, MonadLift.monadLift, hs'], ht⟩

lemma yields_monadLift (p : Step σ α) : Yields (monadLift p) t d ((p d).1.mapError .access)
    (p d).2 :=
  fun s hs => ⟨s, rfl, hs⟩

lemma yields_get : Yields (getThe σ) t d (.ok d) d := fun s hs => ⟨s, rfl, hs⟩

lemma yields_set (d' : σ) : Yields (set d') t d (.ok ⟨⟩) d' := fun s hs => ⟨s, rfl, hs⟩

lemma yields_forIn {xs : List α} {f : α → PUnit → Work σ (ForInStep PUnit)}
    (h : ∀ a ∈ xs, Yields (f a ⟨⟩) t d (.ok (.yield ⟨⟩)) d) :
    Yields (forIn xs ⟨⟩ f) t d (.ok ⟨⟩) d := by
  induction xs with
  | nil => exact yields_pure _
  | cons a xs ih =>
    rw [forIn_cons]
    exact (h a mem_cons_self).bind (ih fun b hb => h b (mem_cons_of_mem _ hb))

lemma yields_modify (f : σ → σ) : Yields (modifyThe σ f) t d (.ok ⟨⟩) (f d) :=
  fun s hs => ⟨s, rfl, hs⟩

lemma yields_throw (e : Failure) : Yields (throw e : Work σ α) t d (.error e) d :=
  fun s hs => ⟨s, rfl, hs⟩

lemma Yields.attempt {w : Work σ α} {r : Except Failure α} (h : Yields w t d r d1) :
    Yields (Work.attempt w) t d (.ok r) d1 := by
  intro s hs
  obtain ⟨s', hs', ht⟩ := h s hs
  exact ⟨s', by simp only [Work.attempt, hs'], ht⟩

lemma Yields.perform {w : Work σ α} {x : α} (h : Yields w t d (.ok x) d1) :
    Action.Yields (Action.perform w d) t (.ok (x, d1)) := by
  intro s hs
  obtain ⟨s', hs', ht⟩ := h s hs
  exact ⟨s', by simp only [Action.perform, hs'], ht⟩

lemma Yields.perform_error {w : Work σ α} (h : Yields w t d (.error e) d1) :
    Action.Yields (Action.perform w d) t (.error e) := by
  intro s hs
  obtain ⟨s', hs', ht⟩ := h s hs
  exact ⟨s', by simp only [Action.perform, hs'], ht⟩

end Work

end CodeAtlas
