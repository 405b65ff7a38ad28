import P2PWatcher.Wire.Parsers
import P2PWatcher.Udp.Transfer
import P2PWatcher.Udp.Loss
import P2PWatcher.Udp.Senders
import P2PWatcher.Udp.Partition
import P2PWatcher.Udp.Message
import P2PWatcher.Tcp.Ending
import P2PWatcher.Tcp.Ids
import P2PWatcher.Tcp.Architecture
import P2PWatcher.Tcp.Writes
import P2PWatcher.Tcp.OneChain
import P2PWatcher.Tcp.FirstData
import P2PWatcher.Tcp.Headers
import P2PWatcher.Crc.Detect
import P2PWatcher.Crc.Errors
import P2PWatcher.Crc.Test
import P2PWatcher.Manager.Image
import P2PWatcher.Manager.Frames
import P2PWatcher.Network.Safety
