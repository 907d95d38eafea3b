import SourceIndex.Proofs.Step
import SourceIndex.Remote.GitHub

/-! The ceiling of an archive. A body is read piece by piece and given up with the first piece that takes it over the
limit, so the result is the one of the whole body, however it is cut. The limit is the ceiling of the configuration
in bytes, as a product of words of 64 bits. From 2 ^ 44 megabytes on, which a configuration may name, it does not fit:
where overflow is checked there is no client then, and where it is not the limit is too low. -/

namespace SourceIndex

/-- The ceiling that a configuration names, in bytes. -/
def HostConfig.ceiling (host : HostConfig) : Nat := host.maxTarballMb * (1024 * 1024)

/-- How many numbers a word of 64 bits tells apart. -/
def wordCount : Nat := Nat.pow 2 64

namespace Overflow
variable {overflow : Overflow} {a b c : Nat}

theorem mul?_of_lt (h : a * b < wordCount) : overflow.mul? a b = some (a * b) := if_pos h

theorem mul?_checked_of_le (h : wordCount ≤ a * b) : checked.mul? a b = none := if_neg (Nat.not_lt.mpr h)

theorem mul?_wrapping : wrapping.mul? a b = some (a * b % wordCount) := by
  rw [mul?]
  split
  · rw [Nat.mod_eq_of_lt ‹_›]
  · rfl

/-- Of two products in a row the fault is the one of the whole. -/
theorem mul?_mul?_checked (hc : 0 < c) :
    (checked.mul? a b).bind (checked.mul? · c) = if a * (b * c) < wordCount then some (a * (b * c)) else none := by
  rw [← Nat.mul_assoc]
  by_cases hfits : a * b < wordCount
  · rw [mul?_of_lt hfits]
    rfl
  · have hle : a * b ≤ a * b * c := Nat.le_mul_of_pos_right _ hc
    rw [mul?_checked_of_le (Nat.not_lt.mp hfits), if_neg (by omega)]
    rfl

theorem mul?_mul?_wrapping :
    (wrapping.mul? a b).bind (wrapping.mul? · c) = some (a * (b * c) % wordCount) := by
  rw [mul?_wrapping, Option.bind_some, mul?_wrapping, Nat.mod_mul_mod, Nat.mul_assoc]

end Overflow

namespace HostConfig
variable (host : HostConfig) {overflow : Overflow} {limit : Nat}

theorem maxTarballBytes_checked :
    host.maxTarballBytes .checked = if host.ceiling < wordCount then some host.ceiling else none :=
  Overflow.mul?_mul?_checked (by decide)

theorem maxTarballBytes_wrapping : host.maxTarballBytes .wrapping = some (host.ceiling % wordCount) :=
  Overflow.mul?_mul?_wrapping

theorem maxTarballBytes_eq_none_iff :
    host.maxTarballBytes overflow = none ↔ overflow = .checked ∧ wordCount ≤ host.ceiling := by
  cases overflow with
  | checked => simp [maxTarballBytes_checked]
  | wrapping => simp [maxTarballBytes_wrapping]

/-- A limit is the ceiling as a word, and where overflow is checked the ceiling itself. -/
theorem eq_of_maxTarballBytes {host : HostConfig} (h : host.maxTarballBytes overflow = some limit) :
    limit = host.ceiling % wordCount ∧ (overflow = .checked → host.ceiling < wordCount) := by
  cases overflow with
  | checked =>
      rw [maxTarballBytes_checked] at h
      split at h
      · cases h
        exact ⟨(Nat.mod_eq_of_lt ‹_›).symm, fun _ => ‹_›⟩
      · cases h
  | wrapping =>
      rw [maxTarballBytes_wrapping] at h
      cases h
      exact ⟨rfl, nofun⟩

end HostConfig

namespace Remote.GitHub
open Step

/-- The failure of a body that is larger than the limit. -/
def tooLarge (repo : RepoName) (limit : Nat) : Failure :=
  .stated ("Tarball of " ++ repo.fullName ++ " exceeds " ++ toString limit ++ " bytes")

/-- Of a body that arrives to its end the pieces are the result if they are not too large together. -/
theorem readPieces_of_complete (repo : RepoName) {limit size : Nat} (hsize : size ≤ limit)
    (pieces done : List (List UInt8)) :
    readPieces repo limit true pieces size done =
      if size + pieces.flatten.length ≤ limit then .ok (done.reverse.flatten ++ pieces.flatten)
      else .error (tooLarge repo limit) := by
  -- The size of what was read stays within the limit from piece to piece.
  induction pieces generalizing size done with
  | nil => simp [readPieces, hsize]
  | cons piece rest ih =>
      rw [readPieces, List.flatten_cons, List.length_append]
      by_cases hover : limit < size + piece.length
      · rw [if_pos hover, if_neg (by omega)]
        rfl
      · rw [if_neg hover, ih (by omega), Nat.add_assoc]
        simp

section
variable {σ : Type} {client : Client} {transport : Transport σ} {network network' : σ} {reply : Reply}

theorem outcome_get {path token : String}
    (hsend : (transport.send (request client path token)).run network = (.ok reply, network'))
    (hsuccess : reply.isSuccess = true) : outcome (get client transport path token) network = (.ok reply, network') := by
  unfold get
  simp only [outcome, ExceptT.run_mk, StateT.run_bind, hsend]
  change (if reply.isSuccess = true then Except.ok reply else .error (refusal path reply), network') = _
  rw [if_pos hsuccess]

theorem ofConfig_eq_none_iff {overflow : Overflow} {host : HostConfig} :
    Client.ofConfig overflow host = .ok none ↔
      isHeaderValue host.userAgent = true ∧ overflow = .checked ∧ wordCount ≤ host.ceiling := by
  rw [Client.ofConfig, ← host.maxTarballBytes_eq_none_iff]
  split <;> simp_all

theorem maxTarballBytes_of_ofConfig {overflow : Overflow} {host : HostConfig}
    (h : Client.ofConfig overflow host = .ok (some client)) :
    client.maxTarballBytes = host.ceiling % wordCount ∧ (overflow = .checked → host.ceiling < wordCount) := by
  rw [Client.ofConfig] at h
  split at h
  · obtain ⟨limit, hlimit, rfl⟩ := Option.map_eq_some_iff.mp (Except.ok.inj h)
    exact HostConfig.eq_of_maxTarballBytes hlimit
  · cases h

/-- The limit as a word decides as the ceiling itself exactly if the ceiling fits the word, or if the size is on the
same side of both. -/
theorem le_mod_iff_le_iff {size ceiling : Nat} :
    ((size ≤ ceiling % wordCount) ↔ (size ≤ ceiling)) ↔
      ceiling < wordCount ∨ size ≤ ceiling % wordCount ∨ ceiling < size := by
  have hmod : ceiling % wordCount ≤ ceiling := Nat.mod_le _ _
  by_cases hfits : ceiling < wordCount
  · rw [Nat.mod_eq_of_lt hfits]
    simp [hfits]
  · constructor
    · intro hsame
      by_cases hwithin : size ≤ ceiling
      · exact Or.inr (Or.inl (hsame.mpr hwithin))
      · exact Or.inr (Or.inr (by omega))
    · rintro (hlt | hwithin | hover)
      · exact absurd hlt hfits
      · exact iff_of_true hwithin (by omega)
      · exact iff_of_false (by omega) (by omega)

/-- A body that arrives to its end, against the limit of the client. -/
theorem outcome_download {repo : RepoName} {branch token : String} {body : List UInt8}
    (hsend : (transport.send (request client (repoPath repo ++ "/tarball/" ++ branch) token)).run network =
      (.ok reply, network'))
    (hsuccess : reply.isSuccess = true) (hbody : reply.body? = some body) :
    outcome (download client transport repo branch token) network =
      (if body.length ≤ client.maxTarballBytes then .ok body else .error (tooLarge repo client.maxTarballBytes),
        network') := by
  have hwhole : reply.complete = true ∧ reply.pieces.flatten = body := by
    rw [Reply.body?] at hbody
    split at hbody
    · exact ⟨‹_›, Option.some.inj hbody⟩
    · cases hbody
  rw [download, outcome_bind_of_ok (outcome_get hsend hsuccess), outcome_liftExcept, hwhole.1,
    readPieces_of_complete repo (Nat.zero_le _), hwhole.2, Nat.zero_add]
  rfl

end

/-- The ceiling of archives. There is no client at all exactly where overflow is checked and the ceiling does not fit a
word of 64 bits. Otherwise the download of an archive whose body arrives to its end is the whole body if that is within
the ceiling as a word, and else the failure of its size, however it is cut into pieces. This is the decision of the
ceiling itself exactly if the ceiling fits the word, as it does where overflow is checked, or if the body is on the same
side of both. -/
theorem download_ceiling (overflow : Overflow) (host : HostConfig) :
    (Client.ofConfig overflow host = .ok none ↔
      isHeaderValue host.userAgent = true ∧ overflow = .checked ∧ wordCount ≤ host.ceiling) ∧
    ∀ client, Client.ofConfig overflow host = .ok (some client) →
      (overflow = .checked → host.ceiling < wordCount) ∧
      ∀ {σ : Type} (transport : Transport σ) (network network' : σ) (repo : RepoName) (branch token : String)
        (reply : Reply) (body : List UInt8),
        (transport.send (request client (repoPath repo ++ "/tarball/" ++ branch) token)).run network =
          (.ok reply, network') →
        reply.isSuccess = true → reply.body? = some body →
        outcome (download client transport repo branch token) network =
            (if body.length ≤ host.ceiling % wordCount then .ok body
              else .error (tooLarge repo (host.ceiling % wordCount)), network') ∧
          (((outcome (download client transport repo branch token) network).1 = .ok body ↔
              body.length ≤ host.ceiling) ↔
            host.ceiling < wordCount ∨ body.length ≤ host.ceiling % wordCount ∨ host.ceiling < body.length) := by
  refine ⟨ofConfig_eq_none_iff, fun client hclient => ?_⟩
  obtain ⟨hlimit, hchecked⟩ := maxTarballBytes_of_ofConfig hclient
  refine ⟨hchecked, fun transport network network' repo branch token reply body hsend hsuccess hbody => ?_⟩
  have hdownload := outcome_download hsend hsuccess hbody
  rw [hlimit] at hdownload
  refine ⟨hdownload, ?_⟩
  have hresult : (outcome (download client transport repo branch token) network).1 = .ok body ↔
      body.length ≤ host.ceiling % wordCount := by
    rw [hdownload]
    by_cases hwithin : body.length ≤ host.ceiling % wordCount <;> simp [hwithin]
  rw [hresult]
  exact le_mod_iff_le_iff

/-- A network that answers with a body in two pieces. -/
def twoPieces (first second : List UInt8) : Transport Unit := fun _ => pure (.ok ⟨200, [first, second], true⟩)

/-- Defaults, with another ceiling. -/
def hostWith (megabytes : Nat) : HostConfig := { HostConfig.standard with maxTarballMb := megabytes }

/-- A ceiling of 2 ^ 44 + 1 megabytes, of which a megabyte is left in the word: there is no client where overflow is
checked, and where it is not a body of one byte more than a megabyte is refused. -/
theorem download_ceiling_wrapped :
    Client.ofConfig .checked (hostWith 17592186044417) = .ok none ∧
    ∃ client, Client.ofConfig .wrapping (hostWith 17592186044417) = .ok (some client) ∧
      ((twoPieces (List.replicate 1048576 0) [1]).send
        (request client (repoPath ⟨"acme", "app"⟩ ++ "/tarball/" ++ "main") "token")).run () =
          (.ok ⟨200, [List.replicate 1048576 0, [1]], true⟩, ()) ∧
      (outcome (download client (twoPieces (List.replicate 1048576 0) [1]) ⟨"acme", "app"⟩ "main" "token") ()).1 =
        .error (tooLarge ⟨"acme", "app"⟩ 1048576) := by
  have hclient : Client.ofConfig .wrapping (hostWith 17592186044417) =
      .ok (some ⟨"https://api.github.com", "rindex/0.1.0", 1048576⟩) :=
    ok_of_toOption (by decide +kernel)
  have hsend : ((twoPieces (List.replicate 1048576 0) [1]).send
      (request ⟨"https://api.github.com", "rindex/0.1.0", 1048576⟩
        (repoPath ⟨"acme", "app"⟩ ++ "/tarball/" ++ "main") "token")).run () =
        (.ok ⟨200, [List.replicate 1048576 0, [1]], true⟩, ()) := by
    rw [Transport.send, if_pos (by decide)]
    rfl
  have hwrapped : (hostWith 17592186044417).ceiling % wordCount = 1048576 := by decide
  have hlength : ([List.replicate 1048576 0, [1]] : List (List UInt8)).flatten.length = 1048577 := by
    rw [List.flatten_cons, List.length_append, List.length_replicate]
    rfl
  refine ⟨(download_ceiling .checked _).1.mpr ⟨by decide, rfl, by decide⟩, _, hclient, hsend, ?_⟩
  have hdownload := (((download_ceiling .wrapping _).2 _ hclient).2 _ _ _ _ _ _ _ _ hsend rfl rfl).1
  rw [hwrapped, hlength, if_neg (by decide)] at hdownload
  rw [hdownload]

/-- A file that asks for 2 ^ 44 megabytes. -/
def spaciousFile : String := "[db]\npath = \"x\"\n[vector]\nprovider = \"memory\"\n[github]\nmax_tarball_mb = 17592186044416\n"

/-- The configuration is accepted and its ceiling is above every file. Where overflow is checked no archive can be
asked for, and where it is not one byte is refused. -/
theorem byte_refused_spaciousFile :
    ∃ config, Config.load "rindex.toml" (some spaciousFile) (fun _ => none) = .ok config ∧
      config.github.ceiling = wordCount ∧ Client.ofConfig .checked config.github = .ok none ∧
      ∃ client, Client.ofConfig .wrapping config.github = .ok (some client) ∧
        outcome (download client (twoPieces [7] []) ⟨"acme", "app"⟩ "main" "token") () =
          (.error (tooLarge ⟨"acme", "app"⟩ 0), ()) := by
  refine ⟨⟨⟨"x"⟩, .standard, hostWith 17592186044416, { VectorConfig.standard with provider := "memory" }, .standard⟩,
    ?_, by decide, ?_, ⟨"https://api.github.com", "rindex/0.1.0", 0⟩, ?_, rfl⟩
  · apply ok_of_toOption
    rw [spaciousFile]
    decide +kernel
  · exact ofConfig_eq_none_iff.mpr ⟨by decide, rfl, by decide⟩
  · apply ok_of_toOption
    decide +kernel

end Remote.GitHub
end SourceIndex
