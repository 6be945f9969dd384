import BuildServer.Proofs.Dialogue.Hearing
import BuildServer.Proofs.Protocol.Results
import BuildServer.Proofs.Server.Repertoire

namespace BuildServer

namespace Outgoing

def targetsNotice (targets : List String) : Outgoing :=
  .notification "buildTarget/didChange" (some (Results.targetsChanged targets))

def optionsNotice (document : String) (o : CompilerOptions) : Outgoing :=
  .notification "build/sourceKitOptionsChanged" (some (Results.optionsChanged document o))

end Outgoing

structure Announcement where
  targets : List String
  documents : List (String × CompilerOptions)

namespace Announcement

def targetsNotices (targets : List String) : List Outgoing :=
  if targets.isEmpty then [] else [.targetsNotice targets]

def optionsNotices (documents : List (String × CompilerOptions)) : List Outgoing :=
  documents.map fun d => .optionsNotice d.1 d.2

def notices (a : Announcement) : List Outgoing := targetsNotices a.targets ++ optionsNotices a.documents

end Announcement

section

variable {changed : Table CompilerOptions} {resolve : String → String} {documents : List String}

end

def sentIn (xs : List ((a : Action) × a.Answer)) : List Outgoing := xs.filterMap fun x => x.1.sends?

structure Smooth (files : FileView) (xs : List ((a : Action) × a.Answer)) : Prop where
  sent : ∀ m r, ⟨.send m, r⟩ ∈ xs → r = .ok ()
  seen : ∀ view, ⟨.probe .files, view⟩ ∈ xs → view = files

section

variable {files : FileView} {xs ys : List ((a : Action) × a.Answer)}

theorem Smooth.mono (h : Smooth files ys) (hsub : xs ⊆ ys) : Smooth files xs :=
  ⟨fun m r hr => h.sent m r (hsub hr), fun view hview => h.seen view (hsub hview)⟩

end

namespace Service

open Dialogue (Hears)

variable {service : Service} {changed : Table CompilerOptions} {files : FileView}
  {xs : List ((a : Action) × a.Answer)}

end Service

end BuildServer
