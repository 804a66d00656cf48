import GreenAgent.Lib.KnownHash
import GreenAgent.Mpf.Model

namespace GreenAgent.Mpf

def Collisionless (hash : Bytes → Digest) (strings : List Bytes) : Prop := Set.InjOn hash {s | s ∈ strings}

theorem Collisionless.mono {hash : Bytes → Digest} (free : Collisionless hash wide) (inside : ∀ s ∈ narrow, s ∈ wide) : Collisionless hash narrow :=
  fun _ ha _ hb same => free (inside _ ha) (inside _ hb) same

-- BLAKE2b-256 on the strings that the concrete runs of this development hash.
-- Every other string is sent to one fixed digest that stands for no record.
def recorded : List KnownHash.Record := [
  ⟨1,0x01,0xee155ace9c40292074cb6aff8c9ccdd273c81648ff1149ef36bcea6ebb8a3e25⟩,
  ⟨1,0x07,0x873e4fe9e41e924911bba3ec53ff4782efc8c0f244fb75c879f8a4328d0142ca⟩,
  ⟨1,0x03,0xe88bd757ad5b9bedf372d8d3f0cf6c962a469db61a265f6418e1ffed86da29ec⟩,
  ⟨64,0xff8bd757ad5b9bedf372d8d3f0cf6c962a469db61a265f6418e1ffed86da29ec873e4fe9e41e924911bba3ec53ff4782efc8c0f244fb75c879f8a4328d0142ca,
    0xc39a90049269d6a9f298b74fc599bda06d83eec40ad8d4f4b6a19888111dcebd⟩,
  ⟨64,0xff155ace9c40292074cb6aff8c9ccdd273c81648ff1149ef36bcea6ebb8a3e25873e4fe9e41e924911bba3ec53ff4782efc8c0f244fb75c879f8a4328d0142ca,
    0x411f3f4d6956834854c848b1e676050d35ab9593f7fe6a7f51355a3914b8581e⟩,
  ⟨64,0x00000000000000000000000000000000000000000000000000000000000000000000000000000000000000000000000000000000000000000000000000000000,
    0x0eb923b0cbd24df54401d998531feead35a47a99f4deed205de4af81120f9761⟩,
  ⟨64,0x0eb923b0cbd24df54401d998531feead35a47a99f4deed205de4af81120f97610eb923b0cbd24df54401d998531feead35a47a99f4deed205de4af81120f9761,
    0x85c09af929492a871e4fae32d9d5c36e352471cd659bcdb61de08f1722acc3b1⟩,
  ⟨64,0x85c09af929492a871e4fae32d9d5c36e352471cd659bcdb61de08f1722acc3b185c09af929492a871e4fae32d9d5c36e352471cd659bcdb61de08f1722acc3b1,
    0xb22df1a126b5ba4e33c16fd6157507610e55ffce20dae7ac44cae168a463612a⟩,
  ⟨64,0xc39a90049269d6a9f298b74fc599bda06d83eec40ad8d4f4b6a19888111dcebd0000000000000000000000000000000000000000000000000000000000000000,
    0x004cac2169d137183d0d39fdb6ff0157222cbdfe8cebbdaecb7f339caf587ee0⟩,
  ⟨64,0x004cac2169d137183d0d39fdb6ff0157222cbdfe8cebbdaecb7f339caf587ee00eb923b0cbd24df54401d998531feead35a47a99f4deed205de4af81120f9761,
    0xebc1fcf4fbf1528fec8d017d0392fd686287e4be64919271676fc1a5c0145a69⟩,
  ⟨64,0x411f3f4d6956834854c848b1e676050d35ab9593f7fe6a7f51355a3914b8581e0000000000000000000000000000000000000000000000000000000000000000,
    0x4b46d433774ba6f2b5f27b5908ad1ced1bf5e402ad2a6b373668560b1715f928⟩,
  ⟨64,0x0eb923b0cbd24df54401d998531feead35a47a99f4deed205de4af81120f97614b46d433774ba6f2b5f27b5908ad1ced1bf5e402ad2a6b373668560b1715f928,
    0x25ba9a382fd8773c858d472aefb71c97cece849b6685cc15629e88da8034760c⟩,
  ⟨64,0xebc1fcf4fbf1528fec8d017d0392fd686287e4be64919271676fc1a5c0145a6925ba9a382fd8773c858d472aefb71c97cece849b6685cc15629e88da8034760c,
    0xf4de6f7d1f60f4c61e0619178ac0359c4a3bd1f8dfa03fd571d29004926f4ce5⟩,
  ⟨64,0xb22df1a126b5ba4e33c16fd6157507610e55ffce20dae7ac44cae168a463612af4de6f7d1f60f4c61e0619178ac0359c4a3bd1f8dfa03fd571d29004926f4ce5,
    0x929ae85e8979ef4a7931b6d43d376420c63391dbc50a94685e451515d3ca488d⟩,
  ⟨33,0x0e929ae85e8979ef4a7931b6d43d376420c63391dbc50a94685e451515d3ca488d,
    0x822aa8ed43f29c79b002df0ad5919042e98c2034ac3142992c8c4f1b708695fa⟩,
  ⟨1,0x00,0x03170a2e7597b7b7e3d84c05391d139a62b157e78786d8c082f29dcf4c111314⟩,
  ⟨33,0x00929ae85e8979ef4a7931b6d43d376420c63391dbc50a94685e451515d3ca488d,
    0x41144ef59ab91a9c45b4085f88976c8c3e2a2398a1fedce92ad896bcecc5a066⟩,
  ⟨64,0xff170a2e7597b7b7e3d84c05391d139a62b157e78786d8c082f29dcf4c111314873e4fe9e41e924911bba3ec53ff4782efc8c0f244fb75c879f8a4328d0142ca,
    0x81e0dcd4403d6e26e13c75abbc4873d8b19dde8c2a790f1cebe16119a1b77d1c⟩,
  ⟨64,0x000000000000000000000000000000000000000000000000000000000000000081e0dcd4403d6e26e13c75abbc4873d8b19dde8c2a790f1cebe16119a1b77d1c,
    0x8d5b4be8e082f9f8acf8fbba8f2a2d4cb701e927fd7075b0d54edb4950396e0a⟩,
  ⟨64,0x0eb923b0cbd24df54401d998531feead35a47a99f4deed205de4af81120f97618d5b4be8e082f9f8acf8fbba8f2a2d4cb701e927fd7075b0d54edb4950396e0a,
    0x5edf47f12e74cea9056860676abfcdf8e0156d25a7981521eaadd16b9eb38785⟩,
  ⟨64,0x5edf47f12e74cea9056860676abfcdf8e0156d25a7981521eaadd16b9eb3878585c09af929492a871e4fae32d9d5c36e352471cd659bcdb61de08f1722acc3b1,
    0x592cb8f7bde35474e6ff97dacc8d6d9e3c1cf89eac20daac83d1b472951caef2⟩,
  ⟨64,0x592cb8f7bde35474e6ff97dacc8d6d9e3c1cf89eac20daac83d1b472951caef2f4de6f7d1f60f4c61e0619178ac0359c4a3bd1f8dfa03fd571d29004926f4ce5,
    0x60280db56aa926d4073dbd0792ff5ca2e9858da9b2aa2e18aaf39c62078f13b6⟩,
  ⟨33,0x0060280db56aa926d4073dbd0792ff5ca2e9858da9b2aa2e18aaf39c62078f13b6,
    0x01fd85f9c4e96a7b8027fd146f2597fcd4d544d2a4b0b8bb61ab9e07bcb252a1⟩,
  ⟨65,0x0003170a2e7597b7b7e3d84c05391d139a62b157e78786d8c082f29dcf4c111314873e4fe9e41e924911bba3ec53ff4782efc8c0f244fb75c879f8a4328d0142ca,
    0xada141c338f31aeca1bc5b1fc4aceeb336412fe3b94f1e1c70645610afbca951⟩,
  ⟨32,0x929ae85e8979ef4a7931b6d43d376420c63391dbc50a94685e451515d3ca488d,
    0x9ac1c8b6a502f18963ce72d58905fccb0dcc49dc45ac097a87e9ec6c38ed5cc6⟩,
  ⟨64,0xada141c338f31aeca1bc5b1fc4aceeb336412fe3b94f1e1c70645610afbca9510000000000000000000000000000000000000000000000000000000000000000,
    0x590d57080c909fafee114265f7483f0d8915709e3361463c529e75c16149803d⟩,
  ⟨64,0x590d57080c909fafee114265f7483f0d8915709e3361463c529e75c16149803d0eb923b0cbd24df54401d998531feead35a47a99f4deed205de4af81120f9761,
    0x5d40c30d29e8947b2953a203527a68f45f41577e269be1fa79ab8f0805d9a352⟩,
  ⟨64,0x5d40c30d29e8947b2953a203527a68f45f41577e269be1fa79ab8f0805d9a35285c09af929492a871e4fae32d9d5c36e352471cd659bcdb61de08f1722acc3b1,
    0x4699f6a9b96a0d9dd465f8df0c363f6d7aab9541c0080dccf59092169e6862f7⟩,
  ⟨64,0x9ac1c8b6a502f18963ce72d58905fccb0dcc49dc45ac097a87e9ec6c38ed5cc60000000000000000000000000000000000000000000000000000000000000000,
    0x4ac044b44952bec9592d6879ad5087fca284f61aa3661193a7453920053c4392⟩,
  ⟨64,0x0eb923b0cbd24df54401d998531feead35a47a99f4deed205de4af81120f97614ac044b44952bec9592d6879ad5087fca284f61aa3661193a7453920053c4392,
    0xb3a2118f3e0b4a3e6906f26ed00f56dd5a17ffa83f124af6fa63d9065986b3a5⟩,
  ⟨64,0x85c09af929492a871e4fae32d9d5c36e352471cd659bcdb61de08f1722acc3b1b3a2118f3e0b4a3e6906f26ed00f56dd5a17ffa83f124af6fa63d9065986b3a5,
    0xdd51fa5433d08622da66a62d6e44735c0411c5e159c7742c114eec9263ece2bb⟩,
  ⟨64,0x4699f6a9b96a0d9dd465f8df0c363f6d7aab9541c0080dccf59092169e6862f7dd51fa5433d08622da66a62d6e44735c0411c5e159c7742c114eec9263ece2bb,
    0xd1739e0bdaacf7a20bfaa07c22cb430d9c228f809521ff2b5fca82671bc02c95⟩,
  ⟨32,0xd1739e0bdaacf7a20bfaa07c22cb430d9c228f809521ff2b5fca82671bc02c95,
    0x09cffd35f7bd26fd1f788195e83715a80bb5bb0ee2e4d2f7b8cd7236fe5ded61⟩,
  ⟨1,0x08,0xfadd2180bd6b1cfa73a67e7892d878521ef69918995040fb8661647d321e0c55⟩,
  ⟨64,0xff155ace9c40292074cb6aff8c9ccdd273c81648ff1149ef36bcea6ebb8a3e25fadd2180bd6b1cfa73a67e7892d878521ef69918995040fb8661647d321e0c55,
    0xc816830d303cd4806e776dccf3567e0044d37e78a9d8635fa9bfb8af98ec3784⟩,
  ⟨64,0xc816830d303cd4806e776dccf3567e0044d37e78a9d8635fa9bfb8af98ec37840000000000000000000000000000000000000000000000000000000000000000,
    0xcf559b18ec7ae3b16d4d29fa7ec33370036d65258a22f9593ce5dea71a292b21⟩,
  ⟨64,0x0eb923b0cbd24df54401d998531feead35a47a99f4deed205de4af81120f9761cf559b18ec7ae3b16d4d29fa7ec33370036d65258a22f9593ce5dea71a292b21,
    0x2a73bde4fd1f68d9aebe3a541e95e3ce2714e76a044b7fb766317fce7017217c⟩,
  ⟨64,0xebc1fcf4fbf1528fec8d017d0392fd686287e4be64919271676fc1a5c0145a692a73bde4fd1f68d9aebe3a541e95e3ce2714e76a044b7fb766317fce7017217c,
    0x2059499026cab71d2f1931b01b775a404dca7650e4239dbe57559d0e9c5b6f5c⟩,
  ⟨64,0xb22df1a126b5ba4e33c16fd6157507610e55ffce20dae7ac44cae168a463612a2059499026cab71d2f1931b01b775a404dca7650e4239dbe57559d0e9c5b6f5c,
    0xa9b712d4dec86895b2cfd163e54d668d3a11539ef0be29871b136a45a9b389a5⟩,
  ⟨33,0x0ea9b712d4dec86895b2cfd163e54d668d3a11539ef0be29871b136a45a9b389a5,
    0x9c0d72857375db47e0d10f385c1dcdb3e5fbbcbea279ad404a1018c2fc51c07d⟩,
  ⟨65,0xffe88bd757ad5b9bedf372d8d3f0cf6c962a469db61a265f6418e1ffed86da29ec873e4fe9e41e924911bba3ec53ff4782efc8c0f244fb75c879f8a4328d0142ca,
    0xd03d2acad8119b885bfdf4ebc209455024557597772f27d15ebf6c75e77884c4⟩,
  ⟨65,0xffee155ace9c40292074cb6aff8c9ccdd273c81648ff1149ef36bcea6ebb8a3e25873e4fe9e41e924911bba3ec53ff4782efc8c0f244fb75c879f8a4328d0142ca,
    0x90fc683bf5944bc94a8549fc2a5428fabe9e916d088718da05235eae1bbf0d71⟩,
  ⟨79,0xd8799f9f0001ff9f4040ff0a9f581c010101010101010101010101010101010101010101010101010101014141ff1402581c00000000000000000000000000000000000000000000000000000000ff,
    0x2480b9405bb190cb57b5c9e7f608354bb2c98735d28f84aa0d75ed03098616c8⟩,
  ⟨32,0x2480b9405bb190cb57b5c9e7f608354bb2c98735d28f84aa0d75ed03098616c8,
    0x503f0688547e95e1aff48193fd0df541cb4a97da6ca1bad10244eb8bb56448d3⟩,
  ⟨65,0xffee155ace9c40292074cb6aff8c9ccdd273c81648ff1149ef36bcea6ebb8a3e25503f0688547e95e1aff48193fd0df541cb4a97da6ca1bad10244eb8bb56448d3,
    0x32eefc532349c34523660a003aa5cb541c4004a218019341778fb5f1f0f17c5a⟩,
  ⟨79,0xd8799f9f0001ff9f4040ff0b9f581c010101010101010101010101010101010101010101010101010101014141ff1402581c00000000000000000000000000000000000000000000000000000000ff,
    0x7c45910c57f391ebc49aa4ada177f80986157501775eba87ae54f429221eb6e4⟩,
  ⟨32,0x7c45910c57f391ebc49aa4ada177f80986157501775eba87ae54f429221eb6e4,
    0xa6e590b2c502be7eebf4c2413d1f6b83c1243009f135d75eebeb5c51f6d1f8c0⟩,
  ⟨65,0xffe88bd757ad5b9bedf372d8d3f0cf6c962a469db61a265f6418e1ffed86da29eca6e590b2c502be7eebf4c2413d1f6b83c1243009f135d75eebeb5c51f6d1f8c0,
    0xb51b479c060e2ec26cf0fbd61e0309a43b38ba3b7886d3c023d277aee4d43711⟩]

def soleTrie : Trie := ⟨(∅ : Std.ExtTreeMap Bytes Bytes).insert [1] [7]⟩

def pairTrie : Trie := ⟨soleTrie.leaves.insert [3] [7]⟩

def digestOf (n : Nat) : Digest := ⟨BigEndian.bigEndian 32 n,BigEndian.bigEndian_length 32 n⟩

def blake2b256 (s : Bytes) : Digest := digestOf (KnownHash.digestNumber recorded 1 s)

def isRecorded (s : Bytes) : Bool := (KnownHash.find recorded s).isSome

theorem digestOf_inj (small : n < 256^32) (small' : m < 256^32) (same : digestOf n = digestOf m) : n = m := by
  unfold digestOf at same
  exact BigEndian.bigEndian_inj small small' (Digest.mk.inj same)

theorem recorded_small (s : Bytes) : KnownHash.digestNumber recorded 1 s < 256^32 :=
  KnownHash.digestNumber_small (by decide) (by decide) s

theorem recorded_collisionless (known : strings.all isRecorded = true) : Collisionless blake2b256 strings := by
  have every := List.all_eq_true.mp known
  intro a ha b hb same
  exact KnownHash.digestNumber_inj (by decide) (every a ha) (every b hb)
    (digestOf_inj (recorded_small a) (recorded_small b) same)

theorem blake2b256_ne_empty (s : Bytes) : blake2b256 s ≠ emptyRoot := by
  intro same
  have zero : KnownHash.digestNumber recorded 1 s = 0 :=
    digestOf_inj (recorded_small s) (by decide) (same.trans (by decide : emptyRoot = digestOf 0))
  have positive : ∀ r ∈ recorded, r.digest ≠ 0 := by decide
  unfold KnownHash.digestNumber at zero
  split at zero
  · rename_i r found
    exact positive r (KnownHash.find_spec found).1 zero
  · cases zero

end GreenAgent.Mpf
