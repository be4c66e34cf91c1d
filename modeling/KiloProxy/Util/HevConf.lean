import KiloProxy.Text.Yaml

/-!
# `hev.yml`

`Utility.makeHevConf` writes the configuration of the fast tunnel as text, each user-supplied value
between single quotes with its own quotes doubled by `yq`. The text is the one of a document of three
sections (`makeHevConf_eq`), so a YAML reader gets back the keys with the address, the username and the
password as they were given (`hev_conf_reads`). The directory is the app's own; it goes in as it is.
-/

namespace KiloProxy.Util
set_option autoImplicit false
open KiloProxy.Text KiloProxy.Text.Yaml

namespace Utility

/-- `'` becomes `''`. -/
def yq (s : Str) : Str := s.flatMap fun c => if c = '\'' then ['\'', '\''] else [c]

/-- `isNullOrEmpty` -/
def isNullOrEmpty (s : Option Str) : Bool := s.getD [] == []

/-- The text `makeHevConf` writes to `hev.yml`; `appendLine` ends each line. -/
def makeHevConf (dir : Str) (serverIp : Option Str) (port : Int) (user passwd : Option Str)
    (ipv6 udpAssociate : Bool) : Str :=
  (["tunnel:".toList,
    "  name: tun0".toList,
    "  mtu: 1500".toList,
    "  ipv4: 10.10.10.2".toList] ++
   (if ipv6 then ["  ipv6: 'fdfe:dcba:9876::2'".toList] else []) ++
   ["socks5:".toList,
    "  port: ".toList ++ ofInt port,
    "  address: '".toList ++ yq (serverIp.getD []) ++ ['\'']] ++
   (if udpAssociate then ["  udp: 'udp'".toList] else []) ++
   (if !isNullOrEmpty user then
      ["  username: '".toList ++ yq (user.getD []) ++ ['\''],
       "  password: '".toList ++ yq (passwd.getD []) ++ ['\'']]
    else []) ++
   ["misc:".toList,
    "  log-level: info".toList,
    "  log-file: '".toList ++ dir ++ "/hev.log'".toList,
    "  connect-timeout: 10000".toList,
    "  udp-read-write-timeout: 60000".toList]).flatMap (· ++ ['\n'])

/-- The keys the code intends, with their values. -/
def hevKeys (dir : Str) (serverIp : Option Str) (port : Int) (user passwd : Option Str) (ipv6 udpAssociate : Bool) :
    List (Str × List (Str × Str)) :=
  [("tunnel".toList,
    [("name".toList, "tun0".toList),
     ("mtu".toList, "1500".toList),
     ("ipv4".toList, "10.10.10.2".toList)] ++
    (if ipv6 then [("ipv6".toList, "fdfe:dcba:9876::2".toList)] else [])),
   ("socks5".toList,
    [("port".toList, ofInt port),
     ("address".toList, serverIp.getD [])] ++
    (if udpAssociate then [("udp".toList, "udp".toList)] else []) ++
    (if !isNullOrEmpty user then
       [("username".toList, user.getD []), ("password".toList, passwd.getD [])]
     else [])),
   ("misc".toList,
    [("log-level".toList, "info".toList),
     ("log-file".toList, dir ++ "/hev.log".toList),
     ("connect-timeout".toList, "10000".toList),
     ("udp-read-write-timeout".toList, "60000".toList)])]

/-- How each of them is written. -/
def hevSections (dir : Str) (serverIp : Option Str) (port : Int) (user passwd : Option Str)
    (ipv6 udpAssociate : Bool) : List Section :=
  [("tunnel".toList,
    [("name".toList, .plain "tun0".toList),
     ("mtu".toList, .plain "1500".toList),
     ("ipv4".toList, .plain "10.10.10.2".toList)] ++
    (if ipv6 then [("ipv6".toList, .quoted "fdfe:dcba:9876::2".toList)] else [])),
   ("socks5".toList,
    [("port".toList, .plain (ofInt port)),
     ("address".toList, .quoted (serverIp.getD []))] ++
    (if udpAssociate then [("udp".toList, .quoted "udp".toList)] else []) ++
    (if !isNullOrEmpty user then
       [("username".toList, .quoted (user.getD [])), ("password".toList, .quoted (passwd.getD []))]
     else [])),
   ("misc".toList,
    [("log-level".toList, .plain "info".toList),
     ("log-file".toList, .quoted (dir ++ "/hev.log".toList)),
     ("connect-timeout".toList, .plain "10000".toList),
     ("udp-read-write-timeout".toList, .plain "60000".toList)])]

section Conf

variable (dir : Str) (serverIp : Option Str) (port : Int) (user passwd : Option Str) (ipv6 udpAssociate : Bool)

/-- The text is the one of the document. -/
theorem makeHevConf_eq (hdir : '\'' ∉ dir) :
    makeHevConf dir serverIp port user passwd ipv6 udpAssociate =
      text (hevSections dir serverIp port user passwd ipv6 udpAssociate) := by
  have hesc : escape '\'' dir = dir := escape_eq_self hdir
  have hyq : ∀ s, yq s = escape '\'' s := fun s => rfl
  unfold makeHevConf text hevSections
  congr 1
  cases ipv6 <;> cases udpAssociate <;> cases isNullOrEmpty user <;>
    simp [sectionLines, entryText, Scalar.text, hyq, hesc, escape_append, escape_cons_ne, escape_nil]

theorem hevSections_value :
    (hevSections dir serverIp port user passwd ipv6 udpAssociate).map sectionValue =
      hevKeys dir serverIp port user passwd ipv6 udpAssociate := by
  cases ipv6 <;> cases udpAssociate <;> unfold hevSections hevKeys <;> cases isNullOrEmpty user <;> rfl

/-- A printed number is a plain scalar. -/
theorem ofInt_plain (n : Int) : ofInt n ≠ [] ∧ (ofInt n).all isPlainChar := by
  have hnat : ∀ k : Nat, (ofNat k).all isPlainChar := by
    intro k
    rw [List.all_eq_true]
    intro c hc
    simp [isPlainChar, Char.isAlphanum, ascii_ofNat hc]
  cases n with
  | ofNat k => exact ⟨ofNat_ne_nil k, hnat k⟩
  | negSucc k =>
    refine ⟨List.cons_ne_nil _ _, ?_⟩
    rw [ofInt, List.all_cons, hnat]
    rfl

theorem onOneLine_getD {v : Version} {s : Option Str} (h : ∀ t ∈ s, OnOneLine v t) : OnOneLine v (s.getD []) := by
  cases s with
  | none => exact fun c hc => absurd hc List.not_mem_nil
  | some t => exact h t rfl

/-- Every key of the document and every value can be read back. -/
theorem hevSections_ok {v : Version} (hdir : OnOneLine v dir) (hip : ∀ s ∈ serverIp, OnOneLine v s)
    (huser : ∀ s ∈ user, OnOneLine v s) (hpasswd : ∀ s ∈ passwd, OnOneLine v s) :
    ∀ s ∈ hevSections dir serverIp port user passwd ipv6 udpAssociate, SectionOk v s := by
  have htunnel : ∀ e ∈ [("name".toList, Scalar.plain "tun0".toList), ("mtu".toList, .plain "1500".toList),
      ("ipv4".toList, .plain "10.10.10.2".toList)] ++
      (if ipv6 then [("ipv6".toList, .quoted "fdfe:dcba:9876::2".toList)] else []), EntryOk v e := by
    cases v <;> cases ipv6 <;> decide +kernel
  have hudp : ∀ e ∈ (if udpAssociate then [("udp".toList, Scalar.quoted "udp".toList)] else []), EntryOk v e := by
    cases v <;> cases udpAssociate <;> decide +kernel
  have hauth : ∀ e ∈ (if !isNullOrEmpty user then [("username".toList, Scalar.quoted (user.getD [])),
      ("password".toList, .quoted (passwd.getD []))] else []), EntryOk v e := by
    split
    · exact List.forall_mem_cons.mpr ⟨.mk (by decide) (onOneLine_getD huser),
        List.forall_mem_singleton.mpr (.mk (by decide) (onOneLine_getD hpasswd))⟩
    · exact fun e he => absurd he List.not_mem_nil
  have hlog : OnOneLine v (dir ++ "/hev.log".toList) := hdir.append (by cases v <;> decide +kernel)
  have hsocks : ∀ e ∈ [("port".toList, Scalar.plain (ofInt port)), ("address".toList, .quoted (serverIp.getD []))],
      EntryOk v e :=
    List.forall_mem_cons.mpr ⟨.mk (by decide) (ofInt_plain port),
      List.forall_mem_singleton.mpr (.mk (by decide) (onOneLine_getD hip))⟩
  have hmisc : ∀ e ∈ [("connect-timeout".toList, Scalar.plain "10000".toList),
      ("udp-read-write-timeout".toList, .plain "60000".toList)], EntryOk v e := by cases v <;> decide +kernel
  unfold hevSections
  refine List.forall_mem_cons.mpr ⟨.mk (by decide) htunnel, List.forall_mem_cons.mpr ⟨.mk (by decide) ?_,
    List.forall_mem_singleton.mpr (.mk (by decide) ?_)⟩⟩
  · rw [List.forall_mem_append, List.forall_mem_append]
    exact ⟨⟨hsocks, hudp⟩, hauth⟩
  · exact List.forall_mem_cons.mpr ⟨by cases v <;> decide +kernel,
      List.forall_mem_cons.mpr ⟨.mk (by decide) hlog, hmisc⟩⟩

end Conf

/-- **The configuration cannot be broken out of**: both YAML versions read the keys that were meant, with the
values that were given. -/
theorem hev_conf_reads (v : Version) (dir : Str) (serverIp : Option Str) (port : Int) (user passwd : Option Str)
    (ipv6 udpAssociate : Bool) (hdir : OnOneLine v dir ∧ '\'' ∉ dir) (hip : ∀ s ∈ serverIp, OnOneLine v s)
    (huser : ∀ s ∈ user, OnOneLine v s) (hpasswd : ∀ s ∈ passwd, OnOneLine v s) :
    readYaml v (makeHevConf dir serverIp port user passwd ipv6 udpAssociate) =
      some (hevKeys dir serverIp port user passwd ipv6 udpAssociate) := by
  rw [makeHevConf_eq dir serverIp port user passwd ipv6 udpAssociate hdir.2]
  rw [readYaml_text v (hevSections_ok dir serverIp port user passwd ipv6 udpAssociate hdir.1 hip huser hpasswd)]
  rw [hevSections_value]

/-- A password of quotes, a comment sign and what looks like a key is still one value. -/
theorem hev_conf_reads_quotes :
    readYaml .v11 (makeHevConf "/data/user/0/net.typeblog.socks/files".toList (some "1.2.3.4".toList) 1080
        (some "o'brien".toList) (some "''p'  port: 1 #\\'".toList) true false) =
      some (hevKeys "/data/user/0/net.typeblog.socks/files".toList (some "1.2.3.4".toList) 1080
        (some "o'brien".toList) (some "''p'  port: 1 #\\'".toList) true false) :=
  hev_conf_reads .v11 _ _ _ _ _ _ _ (by decide +kernel) (by decide +kernel) (by decide +kernel) (by decide +kernel)

end Utility
end KiloProxy.Util
