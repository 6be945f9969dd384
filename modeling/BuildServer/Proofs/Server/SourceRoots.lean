import BuildServer.Proofs.Path.Directory
import BuildServer.Proofs.Server.Documents

namespace BuildServer

theorem nodup_filterMap {α β : Type} {f : α → Option β} {xs : List α} (distinct : xs.Nodup)
    (injective : ∀ x ∈ xs, ∀ y ∈ xs, ∀ b, f x = some b → f y = some b → x = y) : (xs.filterMap f).Nodup := by
  refine List.pairwise_filterMap.mpr (distinct.imp_of_mem ?_)
  rintro x y hx hy hne b hb _ hb' rfl
  exact hne (injective x hx y hy b hb hb')

theorem mem_sourceRoots {files : List String} {root : String} : root ∈ sourceRoots files ↔
    ∃ file ∈ files, ∃ directory, Path.parent? file = some directory ∧
      FileUri.ofDirectory? directory = some root := by
  simp only [sourceRoots, List.mem_filterMap, Names.mem_sorted]
  constructor
  · rintro ⟨directory, ⟨file, hfile, hparent⟩, hroot⟩
    exact ⟨file, hfile, directory, hparent, hroot⟩
  · rintro ⟨file, hfile, directory, hparent, hroot⟩
    exact ⟨directory, ⟨file, hfile, hparent⟩, hroot⟩

namespace Snapshot.Consistent

variable {s : Snapshot} {t file uri root : String} (hs : s.Consistent)
include hs

theorem normal_of_filesOf (h : file ∈ s.filesOf t) : Path.normalize file = file :=
  hs.normal_of_contains (contains_of_filesOf h)

theorem nodup_filesOf (t : String) : (s.filesOf t).Nodup := by
  rw [filesOf]
  cases hfiles : s.files.get? t with
  | none => exact List.nodup_nil
  | some files => exact nodup_of_increasing (hs.files t files hfiles).1

theorem nodup_documents (t : String) : ((s.filesOf t).filterMap FileUri.ofPath?).Nodup := by
  refine nodup_filterMap (hs.nodup_filesOf t) fun file hfile file' hfile' uri huri huri' => ?_
  have hread := FileUri.normalize_path?_ofPath? (hs.normal_of_filesOf hfile) huri
  have hread' := FileUri.normalize_path?_ofPath? (hs.normal_of_filesOf hfile') huri'
  exact Option.some.inj (hread.symm.trans hread')

theorem nodup_sourceRoots (t : String) : (sourceRoots (s.filesOf t)).Nodup := by
  refine nodup_filterMap (Table.nodup_keys _) fun directory hd directory' hd' root hroot hroot' => ?_
  obtain ⟨file, hfile, hparent⟩ := List.mem_filterMap.mp (Names.mem_sorted.mp hd)
  obtain ⟨file', hfile', hparent'⟩ := List.mem_filterMap.mp (Names.mem_sorted.mp hd')
  exact FileUri.directory_unique (hs.normal_of_filesOf hfile) (hs.normal_of_filesOf hfile') hparent hparent'
    hroot hroot'

theorem existsUnique_root (hfile : file ∈ s.filesOf t) (hroot : file ≠ "/")
    (document : FileUri.ofPath? file = some uri) :
    ∃! root, root ∈ sourceRoots (s.filesOf t) ∧ FileUri.Holds root uri := by
  obtain ⟨directory, root, hparent, hdirectory, holds⟩ :=
    FileUri.exists_root (hs.normal_of_filesOf hfile) document hroot
  have hmem := mem_sourceRoots.mpr ⟨file, hfile, directory, hparent, hdirectory⟩
  refine ⟨root, ⟨hmem, holds⟩, ?_⟩
  rintro root' ⟨hmem', holds'⟩
  obtain ⟨file', hfile', directory', hparent', hdirectory'⟩ := mem_sourceRoots.mp hmem'
  obtain ⟨above, rfl⟩ := FileUri.slashed_root (hs.normal_of_filesOf hfile) hparent hdirectory
  obtain ⟨above', rfl⟩ := FileUri.slashed_root (hs.normal_of_filesOf hfile') hparent' hdirectory'
  rw [holds'.unique holds]

theorem exists_document_of_root (h : root ∈ sourceRoots (s.filesOf t)) : ∃ file ∈ s.filesOf t,
    file ≠ "/" ∧ ∃ uri, FileUri.ofPath? file = some uri ∧ FileUri.Holds root uri := by
  obtain ⟨file, hfile, directory, hparent, hroot⟩ := mem_sourceRoots.mp h
  obtain ⟨-, uri, hne, document, -, -, holds⟩ :=
    FileUri.root_cases (hs.normal_of_filesOf hfile) hparent hroot
  exact ⟨file, hfile, hne, uri, document, holds⟩

end Snapshot.Consistent

theorem map_uri_sourcesOf (s : Snapshot) (t : String) :
    (sourcesOf s t).sources.map Results.Source.uri = (s.filesOf t).filterMap FileUri.ofPath? := by
  rw [sourcesOf, List.map_map]
  exact List.map_id _

theorem exists_file_of_source {s : Snapshot} {t : String} {source : Results.Source}
    (h : source ∈ (sourcesOf s t).sources) : ∃ file ∈ s.filesOf t, FileUri.ofPath? file = some source.uri := by
  have huri := List.mem_map_of_mem (f := Results.Source.uri) h
  rwa [map_uri_sourcesOf, List.mem_filterMap] at huri

/-- The sources are the documents of the absolute files, each listed once. The roots are listed once as well,
each holds a source, and a source for a file other than `/` is held by just one of them. -/
structure Results.Sources.Fits (item : Results.Sources) (files : List String) : Prop where
  distinct : (item.sources.map Results.Source.uri).Nodup
  sound : ∀ source ∈ item.sources, ∃ file ∈ files, FileUri.ofPath? file = some source.uri
  complete : ∀ file ∈ files, Path.isAbsolute file = true →
    ∃ source ∈ item.sources, FileUri.ofPath? file = some source.uri
  rooted : ∀ source ∈ item.sources, ∀ file ∈ files, FileUri.ofPath? file = some source.uri → file ≠ "/" →
    ∃! root, root ∈ item.roots ∧ FileUri.Holds root source.uri
  distinct_roots : item.roots.Nodup
  inhabited : ∀ root ∈ item.roots, ∃ source ∈ item.sources, ∃ file ∈ files,
    FileUri.ofPath? file = some source.uri ∧ file ≠ "/" ∧ FileUri.Holds root source.uri

theorem Snapshot.Consistent.fits {s : Snapshot} (hs : s.Consistent) (t : String) :
    (sourcesOf s t).Fits (s.filesOf t) where
  distinct := by
    rw [map_uri_sourcesOf]
    exact hs.nodup_documents t
  sound _ hsource := exists_file_of_source hsource
  complete file hfile absolute := by
    obtain ⟨uri, document⟩ := FileUri.exists_document absolute
    exact ⟨_, mem_sourcesOf hfile document, document⟩
  rooted _ _ _ hfile document hroot := hs.existsUnique_root hfile hroot document
  distinct_roots := hs.nodup_sourceRoots t
  inhabited root hmem := by
    obtain ⟨file, hfile, hroot, uri, document, holds⟩ := hs.exists_document_of_root hmem
    exact ⟨_, mem_sourcesOf hfile document, file, hfile, document, hroot, holds⟩

end BuildServer
