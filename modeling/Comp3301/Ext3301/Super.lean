import Comp3301.Ext3301.Namei

/-!
# The file system: mounting

Mount options (`parse_options` of `a3/super.c`), `ext2_remount`, and the part of `ext2_fill_super`
that deals with options.

* `match_token` and `match_int` of the kernel are modelled as documented: a pattern is a string, or
  a string with a number behind it; `%u` takes what `simple_strtoul` converts with base 0, `%x` what
  it converts with base 16, and `match_int` converts with base 0.
* The encryption key is one variable of the module. It is a part of the state of the parser next to
  the options of the file system that is being mounted.
* What the block device and the rest of the superblock decide is given with the call.
-/

namespace Comp3301.Ext3301

/-! ## Numbers -/

/-- The value of a hexadecimal digit. -/
def xdigit (c : Char) : Option ℕ :=
  if '0' ≤ c ∧ c ≤ '9' then some (c.toNat - '0'.toNat)
  else if 'a' ≤ c ∧ c ≤ 'f' then some (c.toNat - 'a'.toNat + 10)
  else if 'A' ≤ c ∧ c ≤ 'F' then some (c.toNat - 'A'.toNat + 10)
  else none

/-- The prefix `0x`. -/
def hasHexMark : List Char → Bool
  | '0' :: 'x' :: _ => true
  | '0' :: 'X' :: _ => true
  | _ => false

/-- `simple_guess_base`. -/
def guessBase (s : List Char) : ℕ :=
  if hasHexMark s ∧ ((s.drop 2).head?.bind xdigit).isSome then 16
  else if s.head? = some '0' then 8
  else 10

/-- The loop of `simple_strtoul`: the value, an `unsigned long`, and the characters left. -/
def strtoulLoop (base : ℕ) (result : ℕ) : List Char → ℕ × List Char
  | [] => (result, [])
  | c :: cs =>
      match xdigit c with
      | none => (result, c :: cs)
      | some v =>
          if base ≤ v then (result, c :: cs)
          else strtoulLoop base ((result * base + v) % 2 ^ 64) cs

/-- `simple_strtoul`. -/
def strtoul (base : ℕ) (s : List Char) : ℕ × List Char :=
  let base := if base = 0 then guessBase s else base
  strtoulLoop base 0 (if base = 16 ∧ hasHexMark s then s.drop 2 else s)

/-- `match_int`: base 0, and at least one character converted. An argument that a pattern has
accepted has no sign. -/
def matchInt (s : List Char) : Option ℕ :=
  let (value, rest) := strtoul 0 s
  if rest.length = s.length then none else some value

/-! ## Tokens -/

/-- The flags in `s_mount_opt`. -/
inductive MountFlag where
  | minixDf
  | grpid
  | errorsCont
  | errorsRo
  | errorsPanic
  | noUid32
  | check
  | debug
  | oldalloc
  | nobh
  | xattrUser
  | posixAcl
  | xip
  | usrquota
  | grpquota
  | reservation
  deriving DecidableEq

/-- The tokens. -/
inductive Token where
  | bsdDf
  | minixDf
  | grpid
  | nogrpid
  | resgid
  | resuid
  | sb
  | errCont
  | errPanic
  | errRo
  | nouid32
  | nocheck
  | debug
  | oldalloc
  | orlov
  | nobh
  | userXattr
  | nouserXattr
  | acl
  | noacl
  | xip
  | ignore
  | quota
  | usrquota
  | grpquota
  | reservation
  | noreservation
  | key
  deriving DecidableEq

/-- A pattern of the table: a string, with the base of the number behind it, if there is one. -/
structure Pattern where
  token : Token
  text : String
  number : Option ℕ

/-- `tokens`. -/
def tokens : List Pattern :=
  [⟨.bsdDf, "bsddf", none⟩, ⟨.minixDf, "minixdf", none⟩, ⟨.grpid, "grpid", none⟩,
    ⟨.grpid, "bsdgroups", none⟩, ⟨.nogrpid, "nogrpid", none⟩, ⟨.nogrpid, "sysvgroups", none⟩,
    ⟨.resgid, "resgid=", some 0⟩, ⟨.resuid, "resuid=", some 0⟩, ⟨.sb, "sb=", some 0⟩,
    ⟨.errCont, "errors=continue", none⟩, ⟨.errPanic, "errors=panic", none⟩,
    ⟨.errRo, "errors=remount-ro", none⟩, ⟨.nouid32, "nouid32", none⟩,
    ⟨.nocheck, "check=none", none⟩, ⟨.nocheck, "nocheck", none⟩, ⟨.debug, "debug", none⟩,
    ⟨.oldalloc, "oldalloc", none⟩, ⟨.orlov, "orlov", none⟩, ⟨.nobh, "nobh", none⟩,
    ⟨.userXattr, "user_xattr", none⟩, ⟨.nouserXattr, "nouser_xattr", none⟩, ⟨.acl, "acl", none⟩,
    ⟨.noacl, "noacl", none⟩, ⟨.xip, "xip", none⟩, ⟨.grpquota, "grpquota", none⟩,
    ⟨.ignore, "noquota", none⟩, ⟨.quota, "quota", none⟩, ⟨.usrquota, "usrquota", none⟩,
    ⟨.reservation, "reservation", none⟩, ⟨.noreservation, "noreservation", none⟩,
    ⟨.key, "key=", some 16⟩]

/-- The pattern accepts the string; the argument is what follows its text. -/
def Pattern.accepts (p : Pattern) (s : List Char) : Bool :=
  match p.number with
  | none => s = p.text.toList
  | some base =>
      let arg := s.drop p.text.toList.length
      p.text.toList.isPrefixOf s && (strtoul base arg).2 = [] && arg ≠ []

/-- `match_token`, with the argument. -/
def matchToken (s : List Char) : Option (Token × List Char) :=
  (tokens.find? (·.accepts s)).map fun p => (p.token, s.drop p.text.toList.length)

/-! ## Options -/

/-- The options of a file system. -/
structure Options where
  flags : MountFlag → Bool
  resuid : ℕ
  resgid : ℕ

/-- `set_opt`. -/
def Options.setOpt (o : Options) (f : MountFlag) : Options :=
  { o with flags := Function.update o.flags f true }

/-- `clear_opt`. -/
def Options.clearOpt (o : Options) (f : MountFlag) : Options :=
  { o with flags := Function.update o.flags f false }

/-- What the kernel has been configured with. -/
structure Config where
  xattr : Bool
  posixAcl : Bool
  xip : Bool
  quota : Bool

/-- The options that `parse_options` writes to, and the key. -/
structure Parser where
  opts : Options
  key : UInt8

/-- The effect of one option. `none` when a number cannot be converted. -/
def applyToken (cfg : Config) (s : Parser) (token : Token) (arg : List Char) : Option Parser :=
  let o := s.opts
  let opts (o : Options) : Option Parser := some { s with opts := o }
  let optsIf (configured : Bool) (o : Options) : Option Parser :=
    if configured then opts o else some s
  match token with
  | .bsdDf => opts (o.clearOpt .minixDf)
  | .minixDf => opts (o.setOpt .minixDf)
  | .grpid => opts (o.setOpt .grpid)
  | .nogrpid => opts (o.clearOpt .grpid)
  | .resuid => (matchInt arg).bind fun v => opts { o with resuid := v % 2 ^ 32 }
  | .resgid => (matchInt arg).bind fun v => opts { o with resgid := v % 2 ^ 32 }
  | .sb => some s
  | .errPanic => opts (((o.clearOpt .errorsCont).clearOpt .errorsRo).setOpt .errorsPanic)
  | .errRo => opts (((o.clearOpt .errorsCont).clearOpt .errorsPanic).setOpt .errorsRo)
  | .errCont => opts (((o.clearOpt .errorsRo).clearOpt .errorsPanic).setOpt .errorsCont)
  | .nouid32 => opts (o.setOpt .noUid32)
  | .nocheck => opts (o.clearOpt .check)
  | .debug => opts (o.setOpt .debug)
  | .oldalloc => opts (o.setOpt .oldalloc)
  | .orlov => opts (o.clearOpt .oldalloc)
  | .nobh => opts (o.setOpt .nobh)
  | .userXattr => optsIf cfg.xattr (o.setOpt .xattrUser)
  | .nouserXattr => optsIf cfg.xattr (o.clearOpt .xattrUser)
  | .acl => optsIf cfg.posixAcl (o.setOpt .posixAcl)
  | .noacl => optsIf cfg.posixAcl (o.clearOpt .posixAcl)
  | .xip => optsIf cfg.xip (o.setOpt .xip)
  | .quota => optsIf cfg.quota (o.setOpt .usrquota)
  | .usrquota => optsIf cfg.quota (o.setOpt .usrquota)
  | .grpquota => optsIf cfg.quota (o.setOpt .grpquota)
  | .reservation => opts (o.setOpt .reservation)
  | .noreservation => opts (o.clearOpt .reservation)
  | .ignore => some s
  | .key => (matchInt arg).map fun v => { s with key := UInt8.ofNat v }

/-- The effect of one piece of the option string. `none` when it is not accepted. -/
def applyPiece (cfg : Config) (s : Parser) (piece : List Char) : Option Parser :=
  if piece = [] then some s
  else (matchToken piece).bind fun t => applyToken cfg s t.1 t.2

/-- The loop of `parse_options`. What comes before a piece that is not accepted takes effect. -/
def parsePieces (cfg : Config) (s : Parser) : List (List Char) → Bool × Parser
  | [] => (true, s)
  | piece :: pieces =>
      match applyPiece cfg s piece with
      | none => (false, s)
      | some s => parsePieces cfg s pieces

/-- `parse_options`. -/
def parseOptions (cfg : Config) (options : Option (List Char)) (s : Parser) : Bool × Parser :=
  match options with
  | none => (true, s)
  | some options => parsePieces cfg s (options.splitOn ',')

/-! ## Mounting and remounting -/

/-- `EINVAL`. -/
def einval : ℤ := 22

/-- `EROFS`. -/
def erofs : ℤ := 30

/-- The superblock of a mounted file system: its options, and `MS_POSIXACL` and `MS_RDONLY` of its
flags. -/
structure SuperBlock where
  opts : Options
  posixAcl : Bool
  rdonly : Bool

/-- What decides about a mount besides the options: the defaults in the superblock, whether the
device supports `xip`, whether a block is a page, and whether all else succeeds. -/
structure MountEnv where
  defaults : Options
  directAccess : Bool
  pageBlocks : Bool
  rest : Bool

/-- `ext2_xip_verify_sb`. -/
def xipVerify (directAccess : Bool) (o : Options) : Options :=
  if o.flags .xip && !directAccess then o.clearOpt .xip else o

/-- `ext2_fill_super`, as far as it is about options: the mounted file system, if the mount
succeeds, and the key. -/
def fillSuper (cfg : Config) (env : MountEnv) (rdonly : Bool) (options : Option (List Char))
    (key : UInt8) : Option SuperBlock × UInt8 :=
  let (ok, s) := parseOptions cfg options ⟨env.defaults, key⟩
  let opts := xipVerify env.directAccess s.opts
  if ok && !(opts.flags .xip && !env.pageBlocks) && env.rest then
    (some ⟨opts, s.opts.flags .posixAcl, rdonly⟩, s.key)
  else (none, s.key)

/-- What decides about a remount besides the options: whether inodes are busy, whether the file
system has features that prevent writing, and whether `ext2_setup_super` allows writing. -/
structure RemountEnv where
  directAccess : Bool
  pageBlocks : Bool
  busy : Bool
  unsupported : Bool
  writable : Bool

/-- `ext2_remount`, with the key. On an error the options and the flags are restored. -/
def remount (cfg : Config) (env : RemountEnv) (rdonly : Bool) (options : Option (List Char))
    (sb : SuperBlock) (key : UInt8) : ℤ × SuperBlock × UInt8 :=
  let (ok, s) := parseOptions cfg options ⟨sb.opts, key⟩
  if !ok then (-einval, sb, s.key)
  else
    let posixAcl := s.opts.flags .posixAcl
    let opts := xipVerify env.directAccess s.opts
    if opts.flags .xip && !env.pageBlocks then (-einval, sb, s.key)
    else
      let opts :=
        if opts.flags .xip ≠ sb.opts.flags .xip ∧ env.busy then
          { opts with flags := Function.update opts.flags .xip (sb.opts.flags .xip) }
        else opts
      if rdonly = sb.rdonly then (0, ⟨opts, posixAcl, sb.rdonly⟩, s.key)
      else if rdonly then (0, ⟨opts, posixAcl, sb.rdonly⟩, s.key)
      else if env.unsupported then (-erofs, sb, s.key)
      else (0, ⟨opts, posixAcl, sb.rdonly && !env.writable⟩, s.key)

end Comp3301.Ext3301
