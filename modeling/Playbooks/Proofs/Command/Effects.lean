import Playbooks.Command.Run
import Playbooks.Proofs.Compile.Warnings

/-!
# What commands do to files

A command looks for its settings, reads the playbook, checks it and, for `compile`, emits its
program. All of this can fail, and nothing of it writes. A program that is not built is written to
one file. This holds on every host: whatever the tools do, however settings are written, and
wherever the user keeps them.

## Main definitions

* `CommandM.exec`: the outcome of steps and the files they leave.
* `CommandLine.Refused`: a command that fails before it would write.

## Main results

* `Files.read_of_write`: a text that was written is read back.
* `CommandLine.run_changes`: the files after a command.
-/
namespace Playbooks

/-! ## Files that are written -/

namespace Files

variable {files after : Files} {place : Place} {path content : String}

/-- What is no directory is none of the places that are always there. -/
theorem isGiven_of_get?_ne (h : files.get? place ≠ some .directory) : place.isGiven = false := by
  refine Bool.eq_false_iff.mpr fun hgiven => h ?_
  rw [get?, if_pos hgiven]

/-- The way to a file leads through directories, so that it is the same once the file is there. -/
theorem follow_insert {names : List (List Char)} {start : Place} {bytes : ByteArray}
    {access : Access} (hfollow : files.follow start names = .ok place)
    (h : files.get? place ≠ some .directory) :
    (files.insert place (.file bytes access)).follow start names = .ok place := by
  induction names generalizing start with
  | nil => exact hfollow
  | cons name names ih =>
    rw [follow] at hfollow ⊢
    cases hget : files.get? start with
    | none =>
      rw [hget] at hfollow
      cases hfollow
    | some entry =>
      cases entry with
      | file bytes access =>
        rw [hget] at hfollow
        cases hfollow
      | directory =>
        have hne : start ≠ place := by
          rintro rfl
          exact h hget
        rw [hget] at hfollow
        rw [get?_insert _ _ _ _ (isGiven_of_get?_ne h), if_neg hne, hget]
        exact ih hfollow

/-- A file is written at the place of its path, where no directory stands. -/
theorem resolve_of_target {access : Access} (h : files.target path = .ok (place, access)) :
    files.resolve path = .ok place ∧ files.get? place ≠ some .directory := by
  obtain ⟨found, hresolve, h⟩ := exists_of_bind_eq_ok h
  split at h
  · next hget =>
    cases h
    exact ⟨hresolve, by simp [hget]⟩
  · next hget =>
    split at h
    · cases h
      exact ⟨hresolve, by simp [hget]⟩
    · cases h
  · cases h

/-- A text is written at the place of the path, and what may be done with the file there stays the
same. -/
theorem exists_of_write (h : files.write path content = .ok after) :
    ∃ place access, files.target path = .ok (place, access)
      ∧ after = files.insert place (.file content.toUTF8 access) := by
  obtain ⟨⟨place, access⟩, htarget, h⟩ := exists_of_bind_eq_ok h
  exact ⟨place, access, htarget, (Except.ok.inj h).symm⟩

/-- A file that was written is found by its path. -/
theorem find_insert {bytes : ByteArray} {access : Access}
    (h : files.target path = .ok (place, access)) :
    (files.insert place (.file bytes access)).find path = .ok (.file bytes access) := by
  obtain ⟨hresolve, hdirectory⟩ := resolve_of_target h
  have hplace : (files.insert place (.file bytes access)).get? place
      = some (.file bytes access) := by
    rw [get?_insert _ _ _ _ (isGiven_of_get?_ne hdirectory), if_pos rfl]
  have hagain : (files.insert place (.file bytes access)).resolve path = .ok place := by
    rw [resolve] at hresolve ⊢
    split at hresolve
    · cases hresolve
    · next hempty =>
      rw [if_neg hempty]
      exact follow_insert hresolve hdirectory
  rw [find, bind_eq_of_eq_ok hagain, hplace]
  rfl

/-- The text of a file that is open to reading is what its bytes stand for. -/
theorem read_of_find {access : Access} (hfind : files.find path = .ok (.file content.toUTF8 access))
    (hread : access.read = true) : files.read path = .ok content := by
  have hsource : files.source path = .ok (content.toUTF8, access) := by
    rw [source, bind_eq_of_eq_ok hfind]
    exact if_pos hread
  have htext : String.fromUTF8? content.toUTF8 = some content := dif_pos content.isValidUTF8
  rw [read, bind_eq_of_eq_ok hsource]
  simp only [htext]
  rfl

/-- A text that was written is read back, if the file is open to reading. -/
theorem read_of_write {access : Access} (htarget : files.target path = .ok (place, access))
    (hread : access.read = true) (h : files.write path content = .ok after) :
    after.read path = .ok content := by
  obtain ⟨place', access', htarget', rfl⟩ := exists_of_write h
  cases htarget.symm.trans htarget'
  exact read_of_find (find_insert htarget) hread

end Files

/-! ## Steps of commands -/

namespace CommandM

variable {ε α β : Type}

/-- Steps taken from some files: what they give, or why they fail, and the files they leave. -/
def exec (x : CommandM α) (files : Files) : Except CommandError α × Files :=
  x.run files

@[simp] theorem exec_pure (a : α) (files : Files) :
    (pure a : CommandM α).exec files = (.ok a, files) :=
  rfl

@[simp] theorem exec_get (files : Files) : (get : CommandM Files).exec files = (.ok files, files) :=
  rfl

@[simp] theorem exec_set (after files : Files) :
    (set after : CommandM PUnit).exec files = (.ok ⟨⟩, after) :=
  rfl

/-- Later steps start from the files that earlier ones left, unless these failed. -/
theorem exec_bind (x : CommandM α) (f : α → CommandM β) (files : Files) :
    (x >>= f).exec files = match x.exec files with
      | (.ok a, after) => (f a).exec after
      | (.error e, after) => (.error e, after) := by
  change (match x.exec files with | (a, after) => ExceptT.bindCont f a after) = _
  rcases x.exec files with ⟨_ | _, after⟩ <;> rfl

@[simp] theorem exec_orFail_ok (kind : ε → CommandError) (a : α) (files : Files) :
    (orFail kind (.ok a)).exec files = (.ok a, files) :=
  rfl

@[simp] theorem exec_orFail_error (kind : ε → CommandError) (e : ε) (files : Files) :
    (orFail kind (.error e : Except ε α)).exec files = (.error (kind e), files) :=
  rfl

end CommandM

/-! ## Commands -/

namespace CommandLine

open CommandM

/-- The settings and the playbook that a command works with. -/
structure Loads (host : Host) (line : CommandLine) (files : Files) (settings : Settings)
    (source : String) : Prop where
  settings : host.loadSettings files line.settings = .ok settings
  playbook : files.read line.command.playbook = .ok source

/-- A command that fails before it would write, and its failure. -/
inductive Refused (host : Host) (line : CommandLine) (files : Files) : CommandError → Prop where
  | settings {e : CommandError} (h : host.loadSettings files line.settings = .error e) :
      Refused host line files e
  | playbook {settings : Settings} {e : FileError}
      (hsettings : host.loadSettings files line.settings = .ok settings)
      (h : files.read line.command.playbook = .error e) : Refused host line files (.io e)
  | check {playbook source : String} {settings : Settings} {rejection : Rejection}
      (hcommand : line.command = .check playbook) (hloads : Loads host line files settings source)
      (h : settings.check source.toList = .error rejection) :
      Refused host line files (.rejected source.toList rejection)
  | generate {playbook output source : String} {build : Bool} {settings : Settings}
      {rejection : Rejection} (hcommand : line.command = .compile playbook output build)
      (hloads : Loads host line files settings source)
      (h : settings.generate source.toList = .error rejection) :
      Refused host line files (.rejected source.toList rejection)

variable {host : Host} {line : CommandLine} {files : Files}

/-- A check gives its verdict and leaves the files alone. -/
theorem exec_run_check {playbook source : String} {settings : Settings}
    (hcommand : line.command = .check playbook) (hloads : Loads host line files settings source) :
    (line.run host).exec files = match settings.check source.toList with
      | .ok _ => (.ok [], files)
      | .error rejection => (.error (.rejected source.toList rejection), files) := by
  simp only [run, exec_bind, exec_get, hloads.settings, hloads.playbook, exec_orFail_ok]
  simp only [hcommand, exec_bind]
  cases settings.check source.toList <;> rfl

/-- A playbook that is refused is not written, whether it was to be built or not. -/
theorem exec_run_rejected {playbook output source : String} {build : Bool} {settings : Settings}
    {rejection : Rejection} (hcommand : line.command = .compile playbook output build)
    (hloads : Loads host line files settings source)
    (hgenerate : settings.generate source.toList = .error rejection) :
    (line.run host).exec files = (.error (.rejected source.toList rejection), files) := by
  simp only [run, exec_bind, exec_get, hloads.settings, hloads.playbook, exec_orFail_ok]
  simp only [hcommand, exec_bind, hgenerate, exec_orFail_error]

/-- Without a build, the one thing left to do for a program that was emitted is to write it. -/
theorem exec_run_emitted {playbook output source : String} {settings : Settings}
    {emission : Emission} (hcommand : line.command = .compile playbook output false)
    (hloads : Loads host line files settings source)
    (hgenerate : settings.generate source.toList = .ok emission) :
    (line.run host).exec files
      = match files.write (sourcePath output) emission.program.render with
        | .ok written =>
          (.ok (emission.diagnostics.map (Notice.ofDiagnostic source.toList)), written)
        | .error e => (.error (.io e), files) := by
  simp only [run, exec_bind, exec_get, hloads.settings, hloads.playbook, exec_orFail_ok]
  simp only [hcommand, exec_bind, exec_get, hgenerate, exec_orFail_ok]
  cases files.write (sourcePath output) emission.program.render <;> rfl

/-- A command that is refused fails with what it is refused for and leaves the files alone. -/
theorem Refused.exec_run {e : CommandError} (h : Refused host line files e) :
    (line.run host).exec files = (.error e, files) := by
  cases h with
  | settings h =>
    simp only [run, exec_bind, exec_get, h, exec_orFail_error]
    rfl
  | playbook hsettings h =>
    simp only [run, exec_bind, exec_get, hsettings, h, exec_orFail_ok, exec_orFail_error]
  | check hcommand hloads h => rw [exec_run_check hcommand hloads, h]
  | generate hcommand hloads h => exact exec_run_rejected hcommand hloads h

/-- A command is refused unless it has settings and a playbook. -/
theorem refused_or_loads (host : Host) (line : CommandLine) (files : Files) :
    (∃ e, Refused host line files e)
    ∨ ∃ settings source, Loads host line files settings source := by
  cases hsettings : host.loadSettings files line.settings with
  | error e => exact .inl ⟨_, .settings hsettings⟩
  | ok settings =>
    cases hplaybook : files.read line.command.playbook with
    | error e => exact .inl ⟨_, .playbook hsettings hplaybook⟩
    | ok source => exact .inr ⟨settings, source, hsettings, hplaybook⟩

/-- What a command does to the files it finds, on any host. A check changes none of them. A
compilation changes none if it fails over its settings, the playbook file, or the playbook itself,
be it that the source is no playbook, that its plan is not valid, or that warnings about it are
denied. A compilation that succeeds without a build has written the text of the emitted program to
the source path of its output, where it can be read unless the file is closed to reading, and has
changed nothing else; and it does succeed if the program is emitted and can be written there. -/
theorem run_changes (host : Host) (line : CommandLine) (before : Files) :
    (∀ playbook, line.command = .check playbook → ((line.run host).exec before).2 = before)
    ∧ (∀ e, Refused host line before e → (line.run host).exec before = (.error e, before))
    ∧ (∀ playbook output notices after, line.command = .compile playbook output false →
      (line.run host).exec before = (.ok notices, after) →
      ∃ settings source emission place access,
        host.loadSettings before line.settings = .ok settings
        ∧ before.read playbook = .ok source
        ∧ settings.generate source.toList = .ok emission
        ∧ before.target (sourcePath output) = .ok (place, access)
        ∧ (access.read = true → after.read (sourcePath output) = .ok emission.program.render)
        ∧ ∀ other, after.get? other
          = if other = place then some (.file emission.program.render.toUTF8 access)
            else before.get? other)
    ∧ ∀ playbook output settings source emission after,
      line.command = .compile playbook output false →
      Loads host line before settings source → settings.generate source.toList = .ok emission →
      before.write (sourcePath output) emission.program.render = .ok after →
      ∃ notices, (line.run host).exec before = (.ok notices, after) := by
  refine ⟨fun playbook hcommand => ?_, fun e h => h.exec_run, ?_, ?_⟩
  · rcases refused_or_loads host line before with ⟨e, h⟩ | ⟨settings, source, hloads⟩
    · rw [h.exec_run]
    · rw [exec_run_check hcommand hloads]
      cases settings.check source.toList <;> rfl
  · intro playbook output notices after hcommand hok
    rcases refused_or_loads host line before with ⟨e, h⟩ | ⟨settings, source, hloads⟩
    · rw [h.exec_run] at hok
      cases hok
    · cases hgenerate : settings.generate source.toList with
      | error rejection =>
        rw [exec_run_rejected hcommand hloads hgenerate] at hok
        cases hok
      | ok emission =>
        rw [exec_run_emitted hcommand hloads hgenerate] at hok
        cases hwrite : before.write (sourcePath output) emission.program.render with
        | error e =>
          rw [hwrite] at hok
          cases hok
        | ok written =>
          rw [hwrite] at hok
          obtain rfl : written = after := (Prod.mk.inj hok).2
          have hplaybook : before.read playbook = .ok source := by
            have h := hloads.playbook
            rwa [hcommand] at h
          obtain ⟨place, access, htarget, hwritten⟩ := Files.exists_of_write hwrite
          have hdirectory := (Files.resolve_of_target htarget).2
          refine ⟨settings, source, emission, place, access, hloads.settings, hplaybook, hgenerate,
            htarget, fun hread => Files.read_of_write htarget hread hwrite, fun other => ?_⟩
          rw [hwritten]
          exact Files.get?_insert _ _ _ _ (Files.isGiven_of_get?_ne hdirectory)
  · intro playbook output settings source emission after hcommand hloads hgenerate hwrite
    refine ⟨emission.diagnostics.map (Notice.ofDiagnostic source.toList), ?_⟩
    rw [exec_run_emitted hcommand hloads hgenerate, hwrite]

end CommandLine

/-- A playbook that calls no function, a text that is no playbook, bytes that are no text, a
playbook that may not be read, settings that deny warnings, and an older program. -/
def workshop : Files :=
  (Files.ofList [("play", "t [greet] \x7bdebug: \x7bmsg: shout('hi',)\x7d\x7d"),
    ("notes", "t [greet"), ("strict", "deny"), ("out.rs", "fn main() \x7b\x7d")])
  |>.add "picture" (.file ⟨#[0xff, 0xd8]⟩)
  |>.add "secret" (.file "t [greet] \x7b\x7d".toUTF8 { read := false })

/-- On this host no tool can be started, settings are the word `deny` or nothing, and the user keeps
none. -/
def workshopHost : Host where
  tools := fun _ _ _ _ => none
  readSettings := fun text =>
    if text = "deny" then .ok { emit := { denyUnresolved := true } }
    else if text.isEmpty then .ok {}
    else .error "neither `deny` nor nothing"
  configDir := none

theorem exists_exec_of_any {α : Type} {x : CommandM α} {files : Files}
    (h : (x.exec files).1.toOption.any (fun _ => true) = true) :
    ∃ a after, x.exec files = (.ok a, after) := by
  obtain ⟨a, ha, -⟩ := exists_of_any_toOption h
  exact ⟨a, (x.exec files).2, by rw [← ha]⟩

theorem exists_refused_of_denied {host : Host} {line : CommandLine} {files : Files}
    {playbook output : String} {build : Bool}
    (hcommand : line.command = .compile playbook output build)
    (h : ((host.loadSettings files line.settings).toOption.any fun settings =>
      (files.read playbook).toOption.any fun source =>
        (settings.generate source.toList).toOption.isNone) = true) :
    ∃ e, CommandLine.Refused host line files e := by
  obtain ⟨settings, hsettings, h⟩ := exists_of_any_toOption h
  obtain ⟨source, hsource, h⟩ := exists_of_any_toOption h
  obtain ⟨rejection, hgenerate⟩ := exists_of_isNone_toOption h
  have hplaybook : files.read line.command.playbook = .ok source := by
    rw [hcommand]
    exact hsource
  exact ⟨.rejected source.toList rejection, .generate hcommand ⟨hsettings, hplaybook⟩ hgenerate⟩

/-- Checking a text that is no playbook, and compiling with settings that are lost or no settings,
from a file that is no text or may not be read, or with settings that deny the warning about the
playbook, all leave the workshop as it was. Compiling with the default settings replaces the older
program, and only that. -/
theorem run_changes_workshop :
    (((CommandLine.run workshopHost ⟨.check "notes", none, "info"⟩).exec workshop).2 = workshop)
    ∧ (∀ line e,
      (line, e) ∈ [
        ((⟨.compile "play" "out" true, some "lost", "info"⟩ : CommandLine),
          CommandError.settings (.missing "lost")),
        (⟨.compile "play" "out" true, some "notes", "info"⟩,
          .settings (.invalid "notes" "neither `deny` nor nothing")),
        (⟨.compile "picture" "out" true, none, "info"⟩, .io .notText),
        (⟨.compile "secret" "out" true, none, "info"⟩, .io .denied)] →
      CommandLine.Refused workshopHost line workshop e
      ∧ (line.run workshopHost).exec workshop = (.error e, workshop))
    ∧ (∃ e, CommandLine.Refused workshopHost
        ⟨.compile "play" "out" false, some "strict", "info"⟩ workshop e
      ∧ (CommandLine.run workshopHost ⟨.compile "play" "out" false, some "strict", "info"⟩).exec
        workshop = (.error e, workshop))
    ∧ ∃ notices after emission,
      (CommandLine.run workshopHost ⟨.compile "play" "out" false, none, "info"⟩).exec workshop
        = (.ok notices, after)
      ∧ Settings.generate {} "t [greet] \x7bdebug: \x7bmsg: shout('hi',)\x7d\x7d".toList
        = .ok emission
      ∧ after.read "out.rs" = .ok emission.program.render
      ∧ ∀ other, other ≠ ["out.rs"] → after.get? other = workshop.get? other := by
  have changes (line : CommandLine) := CommandLine.run_changes workshopHost line workshop
  have hdefault : workshopHost.loadSettings workshop none = .ok {} := rfl
  refine ⟨(changes ⟨.check "notes", none, "info"⟩).1 "notes" rfl, ?_, ?_, ?_⟩
  · intro line e hmem
    suffices h : CommandLine.Refused workshopHost line workshop e from ⟨h, (changes line).2.1 e h⟩
    simp only [List.mem_cons, Prod.mk.injEq, List.not_mem_nil, or_false] at hmem
    rcases hmem with ⟨rfl, rfl⟩ | ⟨rfl, rfl⟩ | ⟨rfl, rfl⟩ | ⟨rfl, rfl⟩
    · exact .settings rfl
    · exact .settings rfl
    · exact .playbook hdefault rfl
    · exact .playbook hdefault rfl
  · obtain ⟨e, hrefused⟩ : ∃ e, CommandLine.Refused workshopHost
        ⟨.compile "play" "out" false, some "strict", "info"⟩ workshop e :=
      exists_refused_of_denied rfl (by decide +kernel)
    exact ⟨e, hrefused, (changes _).2.1 e hrefused⟩
  · obtain ⟨notices, after, hrun⟩ := exists_exec_of_any
      (show ((CommandLine.run workshopHost ⟨.compile "play" "out" false, none, "info"⟩).exec
        workshop).1.toOption.any (fun _ => true) = true by decide +kernel)
    obtain ⟨settings, source, emission, place, access, hsettings, hsource, hgenerate, htarget,
        hread, hframe⟩ :=
      (changes _).2.2.1 "play" "out" notices after rfl hrun
    have hplay : workshop.read "play"
        = .ok "t [greet] \x7bdebug: \x7bmsg: shout('hi',)\x7d\x7d" := rfl
    have hout : workshop.target "out.rs" = .ok (["out.rs"], {}) := rfl
    obtain rfl := Except.ok.inj (hsettings.symm.trans hdefault)
    obtain rfl := Except.ok.inj (hsource.symm.trans hplay)
    obtain ⟨rfl, rfl⟩ := Prod.mk.inj (Except.ok.inj (htarget.symm.trans hout))
    exact ⟨notices, after, emission, hrun, hgenerate, hread rfl,
      fun other h => by rw [hframe, if_neg h]⟩

end Playbooks
