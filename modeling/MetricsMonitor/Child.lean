/-
**The child that counts the processes.**

`get_processes_usage` forks a child, which opens `TEMP_PROC_METRICS_FILE`, redirects its standard
output to it and executes `top`; the parent waits for it and scans the file.  The file has a name,
which `remove` takes away, and contents, which a child that has it open keeps writing to.

* `Monitor.TempFile` — the name and the contents that have stood under it;
* `Monitor.Child`, `Monitor.Child.step` — what a child does, call by call, and how it ends;
* `Monitor.LeavesIn`, `Monitor.Child.step_leavesIn` — **what a child leaves in the file**: its own
  output once it has opened the file, and what was there before otherwise.
-/

import Mathlib.Data.List.Basic

set_option relaxedAutoImplicit false
set_option autoImplicit false

namespace Monitor

/-! ### The temporary file -/

/-- `TEMP_PROC_METRICS_FILE`: the number of the inode under the name, if there is one, and the
contents of all inodes there have been. -/
structure TempFile where
  name : Option ℕ
  inodes : List (List Char)
  valid : ∀ i, name = some i → i < inodes.length
  deriving DecidableEq

namespace TempFile

/-- No file, and none before. -/
def absent : TempFile := ⟨none, [], by simp⟩

/-- What opening the file for reading gives. -/
def content (f : TempFile) : Option (List Char) := f.name.bind (f.inodes[·]?)

/-- `open` with `O_CREAT | O_TRUNC`: the inode opened, and the file afterwards. -/
def create (f : TempFile) : ℕ × TempFile :=
  match f.name with
  | some i => (i, { f with inodes := f.inodes.set i [], valid := by simpa using f.valid })
  | none => (f.inodes.length, ⟨some f.inodes.length, f.inodes ++ [[]], by simp⟩)

/-- `write` at an offset; a gap before it is filled with null bytes. -/
def write (i offset : ℕ) (bytes : List Char) (f : TempFile) : TempFile :=
  { f with
    inodes := f.inodes.modify i fun old =>
      (old.take offset).rightpad offset (Char.ofNat 0) ++ bytes ++
        old.drop (offset + bytes.length)
    valid := by simpa using f.valid }

/-- `remove`. -/
def remove (f : TempFile) : TempFile := { f with name := none, valid := by simp }

@[simp] theorem write_name (i offset : ℕ) (bytes : List Char) (f : TempFile) :
    (f.write i offset bytes).name = f.name := rfl

/-- After `open` the inode stands under the name and is empty. -/
theorem create_spec (f : TempFile) :
    f.create.2.name = some f.create.1 ∧ f.create.2.inodes[f.create.1]? = some [] := by
  unfold create
  split
  · rename_i i hname
    exact ⟨hname, List.getElem?_set_self (f.valid i hname)⟩
  · exact ⟨rfl, by simp⟩

@[simp] theorem create_name (f : TempFile) : f.create.2.name.isSome = true := by
  rw [f.create_spec.1]
  rfl

/-- Appending to the contents that stand under the name. -/
theorem write_end {f : TempFile} {i : ℕ} {out : List Char} (hout : f.inodes[i]? = some out)
    (bytes : List Char) : (f.write i out.length bytes).inodes[i]? = some (out ++ bytes) := by
  simp [write, hout, List.rightpad]

/-- What is written to the new file is read back. -/
theorem content_write_create (f : TempFile) (bytes : List Char) :
    (f.create.2.write f.create.1 0 bytes).content = some bytes := by
  obtain ⟨hname, hempty⟩ := f.create_spec
  rw [content, write_name, hname, Option.bind_some, write, List.getElem?_modify, hempty]
  simp [List.rightpad]

end TempFile

/-! ### Children -/

/-- Where a child is. -/
inductive ChildPc
  /-- Before `open`. -/
  | opening
  /-- Before `dup2`, with this inode open. -/
  | redirecting (i : ℕ)
  /-- Before `execlp`. -/
  | executing (i : ℕ)
  /-- Executing `top`, which writes at this offset of its standard output. -/
  | top (i offset : ℕ)
  /-- It has ended, with this word for `waitpid`. -/
  | exited (status : ℕ)
  deriving DecidableEq

/-- What a child does next. -/
inductive ChildStep
  /-- Its call succeeds. -/
  | ok
  /-- Its call fails; the child executes `exit(-1)`. -/
  | fail
  /-- `top` writes. -/
  | write (bytes : List Char)
  /-- `top` exits. -/
  | exit (code : ℕ)
  /-- A signal kills it. -/
  | kill (signal : ℕ)
  deriving DecidableEq

/-- A child and whether it has been reaped. -/
structure Child where
  pc : ChildPc
  reaped : Bool
  deriving DecidableEq

namespace Child

/-- A child right after `fork`. -/
def forked : Child := ⟨.opening, false⟩

/-- The word for `waitpid`, once the child has ended. -/
def status (c : Child) : Option ℕ :=
  match c.pc with
  | .exited status => some status
  | _ => none

theorem status_eq_some {c : Child} {status : ℕ} :
    c.status = some status ↔ c.pc = .exited status := by
  obtain ⟨pc, reaped⟩ := c
  cases pc with
  | opening | redirecting i | executing i | top i offset => simp [Child.status]
  | exited status' => simp [Child.status]

/-- What a child does to itself and to the temporary file. -/
def step (c : Child) (f : TempFile) : ChildStep → Option (Child × TempFile)
  | .ok =>
      match c.pc with
      | .opening => some ({ c with pc := .redirecting f.create.1 }, f.create.2)
      | .redirecting i => some ({ c with pc := .executing i }, f)
      | .executing i => some ({ c with pc := .top i 0 }, f)
      | .top _ _ | .exited _ => none
  | .fail =>
      match c.pc with
      | .opening | .redirecting _ | .executing _ => some ({ c with pc := .exited 0xff00 }, f)
      | .top _ _ | .exited _ => none
  | .write bytes =>
      match c.pc with
      | .top i offset =>
          some ({ c with pc := .top i (offset + bytes.length) }, f.write i offset bytes)
      | _ => none
  | .exit code =>
      match c.pc with
      | .top _ _ => some ({ c with pc := .exited ((code % 256) <<< 8) }, f)
      | _ => none
  | .kill signal =>
      match c.pc with
      | .exited _ => none
      | _ => some ({ c with pc := .exited (signal % 128) }, f)

/-- `open` with `O_CREAT` is the only step that can bring the name of the file into being, and no
step reaps a child. -/
theorem step_spec {c d : Child} {f f' : TempFile} {o : ChildStep}
    (h : c.step f o = some (d, f')) : d.reaped = c.reaped ∧
      (c.pc = .opening ∧ o = .ok ∧ f'.name.isSome = true ∨
        ¬ (c.pc = .opening ∧ o = .ok) ∧ f'.name = f.name) := by
  obtain ⟨pc, reaped⟩ := c
  cases o with
  | ok =>
      cases pc with
      | opening =>
          simp only [step, Option.some.injEq, Prod.mk.injEq] at h
          obtain ⟨rfl, rfl⟩ := h
          exact ⟨rfl, Or.inl ⟨rfl, rfl, f.create_name⟩⟩
      | redirecting i | executing i =>
          simp only [step, Option.some.injEq, Prod.mk.injEq] at h
          obtain ⟨rfl, rfl⟩ := h
          exact ⟨rfl, Or.inr ⟨by simp, rfl⟩⟩
      | top i offset => simp [step] at h
      | exited status => simp [step] at h
  | fail =>
      cases pc with
      | opening | redirecting i | executing i =>
          simp only [step, Option.some.injEq, Prod.mk.injEq] at h
          obtain ⟨rfl, rfl⟩ := h
          exact ⟨rfl, Or.inr ⟨by simp, rfl⟩⟩
      | top i offset => simp [step] at h
      | exited status => simp [step] at h
  | write bytes =>
      cases pc with
      | top i offset =>
          simp only [step, Option.some.injEq, Prod.mk.injEq] at h
          obtain ⟨rfl, rfl⟩ := h
          exact ⟨rfl, Or.inr ⟨by simp, rfl⟩⟩
      | opening | redirecting i | executing i | exited status => simp [step] at h
  | exit code =>
      cases pc with
      | top i offset =>
          simp only [step, Option.some.injEq, Prod.mk.injEq] at h
          obtain ⟨rfl, rfl⟩ := h
          exact ⟨rfl, Or.inr ⟨by simp, rfl⟩⟩
      | opening | redirecting i | executing i | exited status => simp [step] at h
  | kill signal =>
      cases pc with
      | opening | redirecting i | executing i | top i offset =>
          simp only [step, Option.some.injEq, Prod.mk.injEq] at h
          obtain ⟨rfl, rfl⟩ := h
          exact ⟨rfl, Or.inr ⟨by simp, rfl⟩⟩
      | exited status => simp [step] at h

/-- A child that has ended takes no step. -/
theorem step_of_exited {c : Child} {status : ℕ} (h : c.pc = .exited status) (f : TempFile)
    (o : ChildStep) : c.step f o = none := by
  obtain ⟨pc, reaped⟩ := c
  obtain rfl : pc = .exited status := h
  cases o with
  | ok | fail | write | exit | kill => rfl

/-- No step leads back in front of `open`. -/
theorem step_ne_opening {c d : Child} {f f' : TempFile} {o : ChildStep}
    (h : c.step f o = some (d, f')) : d.pc ≠ .opening := by
  obtain ⟨pc, reaped⟩ := c
  rintro hd
  cases o with
  | ok | fail | write | exit | kill =>
      cases pc with
      | opening | redirecting | executing | top | exited =>
          simp only [step, Option.some.injEq, Prod.mk.injEq, reduceCtorEq] at h
          try simp [← h.1] at hd

/-- In front of `open` a child that does not succeed ends, and leaves the file alone. -/
theorem step_opening {c d : Child} {f f' : TempFile} {o : ChildStep} (hpc : c.pc = .opening)
    (ho : o ≠ .ok) (h : c.step f o = some (d, f')) :
    (∃ status, d.pc = .exited status) ∧ f' = f := by
  obtain ⟨pc, reaped⟩ := c
  obtain rfl : pc = .opening := hpc
  cases o with
  | ok => exact absurd rfl ho
  | fail | kill =>
      simp only [step, Option.some.injEq, Prod.mk.injEq] at h
      obtain ⟨rfl, rfl⟩ := h
      exact ⟨⟨_, rfl⟩, rfl⟩
  | write | exit => simp [step] at h

/-- A child takes steps one after the other. -/
def run (c : Child) (f : TempFile) (os : List ChildStep) : Option (Child × TempFile) :=
  os.foldlM (fun p o => p.1.step p.2 o) (c, f)

theorem run_cons_eq_some {c d : Child} {f f' : TempFile} {o : ChildStep} {os : List ChildStep} :
    c.run f (o :: os) = some (d, f') ↔
      ∃ e g, c.step f o = some (e, g) ∧ e.run g os = some (d, f') := by
  simp [run, List.foldlM_cons, Option.bind_eq_some_iff]

end Child

/-- The bytes that a step writes. -/
def ChildStep.written : ChildStep → List Char
  | .write bytes => bytes
  | _ => []

/-- What a child prints. -/
def outputOf (os : List ChildStep) : List Char := os.flatMap ChildStep.written

/-! ### What a child leaves in the file -/

/-- The child has opened the inode `i`, no call of it has failed, and under the name of the file,
unless it has been removed, stands what it has printed. -/
structure Opened (f : TempFile) (os : List ChildStep) (i : ℕ) : Prop where
  head : os.head? = some .ok
  fail : .fail ∉ os
  holds : f.name = none ∨ f.name = some i ∧ f.content = some (outputOf os)

/-- **What stands in the file while a child runs that has taken these steps.**  Once it has ended,
either nothing that meets `P` stands there, or it has opened the file and succeeded up to `top`. -/
def LeavesIn (P : Option (List Char) → Prop) (f : TempFile) (os : List ChildStep) : ChildPc → Prop
  | .opening => os = []
  | .redirecting i | .executing i => Opened f os i ∧ outputOf os = []
  | .top i offset => Opened f os i ∧ offset = (outputOf os).length
  | .exited _ => ¬ P f.content ∨
      os.head? = some .ok ∧ .fail ∉ os ∧ f.content = some (outputOf os)

theorem outputOf_append_singleton (os : List ChildStep) (o : ChildStep) :
    outputOf (os ++ [o]) = outputOf os ++ o.written := by
  simp [outputOf]

namespace Opened

variable {f f' : TempFile} {os : List ChildStep} {i : ℕ}

/-- The file stays as it is. -/
theorem congr (h : Opened f os i) (hname : f'.name = f.name) (hcontent : f'.content = f.content) :
    Opened f' os i :=
  ⟨h.head, h.fail, by rw [hname, hcontent]; exact h.holds⟩

/-- A step that succeeds, after which the file holds what has been printed up to it. -/
theorem append (h : Opened f os i) {o : ChildStep} (ho : o ≠ .fail)
    (hholds : f'.name = none ∨ f'.name = some i ∧ f'.content = some (outputOf os ++ o.written)) :
    Opened f' (os ++ [o]) i where
  head := by
    have hhead := h.head
    cases os with
    | nil => simp at hhead
    | cons p os => exact hhead
  fail := by simp [h.fail, ho.symm]
  holds := by rwa [outputOf_append_singleton]

/-- A step that succeeds and prints nothing. -/
theorem append_silent (h : Opened f os i) {o : ChildStep} (ho : o ≠ .fail) (hw : o.written = []) :
    Opened f (os ++ [o]) i := by
  refine h.append ho ?_
  rw [hw, List.append_nil]
  exact h.holds

/-- The end of the child. -/
theorem leavesIn_exited (h : Opened f os i) {P : Option (List Char) → Prop} (hP : ¬ P none)
    (status : ℕ) :
    LeavesIn P f os (.exited status) := by
  rcases h.holds with hname | ⟨-, hcontent⟩
  · left
    rw [TempFile.content, hname]
    exact hP
  · exact Or.inr ⟨h.head, h.fail, hcontent⟩

end Opened

namespace Child

variable {c d : Child} {f f' : TempFile} {os : List ChildStep} {o : ChildStep}

/-- **One step of a child**, which keeps what it leaves in the file.  If it ends before it has
opened the file, nothing that meets `P` must stand there. -/
theorem step_leavesIn {P : Option (List Char) → Prop} (hP : ¬ P none) (hempty : ¬ P (some []))
    (h : c.step f o = some (d, f')) (hI : LeavesIn P f os c.pc)
    (hopening : c.pc = .opening → o ≠ .ok → ¬ P f.content) : LeavesIn P f' (os ++ [o]) d.pc := by
  obtain ⟨pc, reaped⟩ := c
  cases o with
  | ok =>
      cases pc with
      | opening =>
          simp only [step, Option.some.injEq, Prod.mk.injEq] at h
          obtain ⟨rfl, rfl⟩ := h
          obtain rfl : os = [] := hI
          obtain ⟨hname, hinode⟩ := f.create_spec
          have hcontent : f.create.2.content = some [] := by
            rw [TempFile.content, hname, Option.bind_some, hinode]
          exact ⟨⟨rfl, by simp, Or.inr ⟨hname, hcontent⟩⟩, rfl⟩
      | redirecting i | executing i =>
          simp only [step, Option.some.injEq, Prod.mk.injEq] at h
          obtain ⟨rfl, rfl⟩ := h
          have hout : outputOf (os ++ [.ok]) = [] := by
            rw [outputOf_append_singleton, hI.2]
            rfl
          exact ⟨hI.1.append_silent (by simp) rfl, by simp [hout]⟩
      | top i offset | exited status => simp [step] at h
  | fail =>
      cases pc with
      | opening =>
          simp only [step, Option.some.injEq, Prod.mk.injEq] at h
          obtain ⟨rfl, rfl⟩ := h
          exact Or.inl (hopening rfl (by simp))
      | redirecting i | executing i =>
          simp only [step, Option.some.injEq, Prod.mk.injEq] at h
          obtain ⟨rfl, rfl⟩ := h
          -- nothing has been printed, and the file is empty or gone
          rcases hI.1.holds with hname | ⟨-, hcontent⟩
          · left
            rw [TempFile.content, hname]
            exact hP
          · left
            rw [hcontent, hI.2]
            exact hempty
      | top i offset | exited status => simp [step] at h
  | write bytes =>
      cases pc with
      | top i offset =>
          simp only [step, Option.some.injEq, Prod.mk.injEq] at h
          obtain ⟨rfl, rfl⟩ := h
          obtain ⟨hopened, rfl⟩ := hI
          refine ⟨hopened.append (by simp) ?_, by simp [outputOf_append_singleton,
            ChildStep.written]⟩
          rcases hopened.holds with hname | ⟨hname, hcontent⟩
          · exact Or.inl hname
          · rw [TempFile.content, hname, Option.bind_some] at hcontent
            refine Or.inr ⟨hname, ?_⟩
            rw [TempFile.content, TempFile.write_name, hname, Option.bind_some,
              TempFile.write_end hcontent]
            rfl
      | opening | redirecting i | executing i | exited status => simp [step] at h
  | exit code =>
      cases pc with
      | top i offset =>
          simp only [step, Option.some.injEq, Prod.mk.injEq] at h
          obtain ⟨rfl, rfl⟩ := h
          exact (hI.1.append_silent (by simp) rfl).leavesIn_exited hP _
      | opening | redirecting i | executing i | exited status => simp [step] at h
  | kill signal =>
      cases pc with
      | opening =>
          simp only [step, Option.some.injEq, Prod.mk.injEq] at h
          obtain ⟨rfl, rfl⟩ := h
          exact Or.inl (hopening rfl (by simp))
      | redirecting i | executing i | top i offset =>
          simp only [step, Option.some.injEq, Prod.mk.injEq] at h
          obtain ⟨rfl, rfl⟩ := h
          exact (hI.1.append_silent (by simp) rfl).leavesIn_exited hP _
      | exited status => simp [step] at h

/-- A step that leaves the contents alone leaves the name alone, too. -/
theorem step_name (h : c.step f o = some (d, f')) (hcontent : f'.content = f.content) :
    f'.name = f.name := by
  rcases (step_spec h).2 with ⟨hpc, rfl, -⟩ | ⟨-, hname⟩
  · obtain ⟨pc, reaped⟩ := c
    obtain rfl : pc = .opening := hpc
    simp only [step, Option.some.injEq, Prod.mk.injEq] at h
    obtain ⟨-, rfl⟩ := h
    cases hname : f.name with
    | some i => simp [TempFile.create, hname]
    | none =>
        -- the new file is empty, and before there was none
        obtain ⟨hcreated, hinode⟩ := f.create_spec
        rw [TempFile.content, hcreated, Option.bind_some, hinode, TempFile.content,
          hname] at hcontent
        simp at hcontent
  · exact hname

end Child

/-- What a child leaves in the file depends on the name and on the contents only. -/
theorem LeavesIn.congr {P : Option (List Char) → Prop} {f f' : TempFile} {os : List ChildStep}
    {pc : ChildPc}
    (h : LeavesIn P f os pc) (hname : f'.name = f.name) (hcontent : f'.content = f.content) :
    LeavesIn P f' os pc := by
  cases pc with
  | opening => exact h
  | redirecting i | executing i | top i offset => exact ⟨h.1.congr hname hcontent, h.2⟩
  | exited status =>
      rw [LeavesIn, hcontent]
      exact h

/-- When the file is removed nothing is left in it. -/
theorem LeavesIn.remove {P : Option (List Char) → Prop} (hP : ¬ P none) {f : TempFile}
    {os : List ChildStep}
    {pc : ChildPc} (h : LeavesIn P f os pc) : LeavesIn P f.remove os pc := by
  cases pc with
  | opening => exact h
  | redirecting i | executing i | top i offset => exact ⟨⟨h.1.head, h.1.fail, Or.inl rfl⟩, h.2⟩
  | exited status => exact Or.inl hP

end Monitor
